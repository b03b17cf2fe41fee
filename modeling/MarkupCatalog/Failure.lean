/-!
# Failures

What can make a run fail, the message for each cause, and the code with which the program then
exits.
-/

namespace MarkupCatalog

/-- Why the file system refuses something. -/
inductive FileFault where
  | notFound
  | alreadyExists
  | notDirectory
  | isDirectory
  | tooManyLinks
  | nameTooLong
  | notText
  | nulInPath
  | other (message : String)
  deriving DecidableEq, Repr

def FileFault.message : FileFault → String
  | notFound => "No such file or directory (os error 2)"
  | alreadyExists => "File exists (os error 17)"
  | notDirectory => "Not a directory (os error 20)"
  | isDirectory => "Is a directory (os error 21)"
  | tooManyLinks => "Too many levels of symbolic links (os error 40)"
  | nameTooLong => "File name too long (os error 36)"
  | notText => "stream did not contain valid UTF-8"
  | nulInPath => "file name contained an unexpected NUL byte"
  | other message => message

inductive Failure where
  | fileNotFound (path : String)
  | unsupportedLanguage (extension : String)
  | parseFailure (message : String)
  | invalidPattern (pattern message : String)
  | badSettings (path message : String)
  | serialization (message : String)
  | fileAccess (fault : FileFault)
  deriving DecidableEq, Repr

namespace Failure

def message : Failure → String
  | fileNotFound path => "file not found: " ++ path
  | unsupportedLanguage ext => "unsupported file extension: " ++ ext
  | parseFailure m => "parse failure: " ++ m
  | invalidPattern pattern m => "invalid file pattern \x60" ++ pattern ++ "\x60: " ++ m
  | badSettings path m => "could not load configuration from " ++ path ++ ": " ++ m
  | serialization m => "serialization failed: " ++ m
  | fileAccess fault => "I/O error: " ++ fault.message

/-- Settings and patterns are the caller's mistake (2), files are the system's (3), and all else
is 1. -/
def exitCode : Failure → Nat
  | badSettings _ _ | invalidPattern _ _ => 2
  | fileNotFound _ | fileAccess _ => 3
  | unsupportedLanguage _ | parseFailure _ | serialization _ => 1

end Failure
end MarkupCatalog

import MarkupCatalog.Glob.Parser
import MarkupCatalog.Text.Raw

/-!
# Rules

A glob as a line that selects files and directories below a top directory. A slash in front or in
the middle ties it to the top, a slash at the end restricts it to directories, and without either
it applies at every depth.
-/

namespace MarkupCatalog.Glob

structure Rule where
  glob : List Piece
  directoriesOnly : Bool

/-- Why a rule cannot be read, and its text. -/
structure RuleFault where
  text : String
  fault : Fault
  deriving DecidableEq, Repr

def RuleFault.message (e : RuleFault) : String :=
  "error parsing glob '" ++ e.text ++ "': " ++ e.fault.message

namespace Rule

def endsWith (tail : String) (s : List Char) : Bool := (Text.before? tail.toList s).isSome

/-- Blanks at the end do not count, unless the last one is escaped. -/
def trimmed (s : List Char) : List Char := if endsWith "\\ " s then s else Text.trimEnd s

/-- A slash at the end, with the backslash that may escape it. -/
def withoutEndSlash (s : List Char) : List Char :=
  let s := s.dropLast
  if s.getLast? = some '\\' then s.dropLast else s

/-- Without a slash, a rule applies at every depth. -/
def atEveryDepth (s : List Char) : List Char :=
  if '/' ∈ s ∨ s = "**".toList then s else "**/".toList ++ s

/-- A rule for all that a directory holds does not apply to the directory. -/
def withinOnly (s : List Char) : List Char :=
  if endsWith "/**" s then s ++ "/*".toList else s

/-- Reads a rule. `shown` is put in front of the text in a message. -/
def parse (shown : String) (text : String) : Except RuleFault Rule :=
  let line := trimmed text.toList
  let tied := line.head? = some '/'
  let s := if tied then line.tail else line
  let directoriesOnly := s.getLast? = some '/'
  let s := if directoriesOnly then withoutEndSlash s else s
  let s := withinOnly (if tied then s else atEveryDepth s)
  match Glob.parse s with
  | .ok glob => .ok { glob, directoriesOnly }
  | .error fault => .error { text := shown ++ String.ofList line, fault }

/-- The bytes of a path with these names. -/
def bytesOf : List RawText → List UInt8
  | [] => []
  | [name] => name.bytes
  | name :: names => name.bytes ++ slash :: bytesOf names

/-- The rule applies to the file or directory at the end of a path. -/
def applies (rule : Rule) (names : List RawText) (isDirectory : Bool) : Bool :=
  (isDirectory || !rule.directoriesOnly) && reads rule.glob (bytesOf names)

end Rule
end MarkupCatalog.Glob

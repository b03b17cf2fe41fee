import MarkupCatalog.Failure
import MarkupCatalog.Path

/-!
# Dialects

The two dialects of source texts, and which files hold them.
-/

namespace MarkupCatalog

/-- The two dialects: in the second, markup is an expression and `<T>` in front of an operand is
not a type assertion. -/
inductive Dialect where
  | typeScript
  | tsx
  deriving DecidableEq, Repr

namespace Dialect

def name : Dialect → String
  | typeScript => "typescript"
  | tsx => "tsx"

/-- The dialect of files with an extension. Letter case does not count. -/
def ofExtension (ext : String) : Except Failure Dialect :=
  let lower := String.ofList (ext.toList.map Char.toLower)
  if lower ∈ ["ts", "mts", "cts"] then .ok typeScript
  else if lower = "tsx" then .ok tsx
  else .error (.unsupportedLanguage ext)

/-- The dialect of files with a name, if they have one. -/
def ofName? (name : Option RawText) : Except Failure Dialect :=
  match (name.bind Path.extensionOf?).bind RawText.text? with
  | some ext => ofExtension ext
  | none => .error (.unsupportedLanguage "none")

def ofPath (p : Path) : Except Failure Dialect := ofName? p.fileName?

end Dialect

/-! ## Kinds of files -/

/-- Files that declare types only, and hold no classes with bodies. A name that is no text is not
one of theirs. -/
def isDeclarationName (name : RawText) : Bool :=
  name.text?.any fun s => (Text.before? ".d.ts".toList s.toList).isSome

/-- Files of these names are read: they are in one of the dialects, and declare more than types. -/
def isSourceName (name : RawText) : Bool :=
  (Dialect.ofName? (some name)).isOk && !isDeclarationName name

/-- The directories that hold dependencies or build output. -/
def outputNames : List String :=
  ["node_modules", "target", "dist", "build", "coverage", "out-tsc"]

/-- Names of hidden files and of directories that hold dependencies or build output. A name that is
no text is none of these, even where it begins with a dot. -/
def isSkippedName (name : RawText) : Bool :=
  name.text?.any fun s => s.toList.head? = some '.' || s ∈ outputNames

namespace Path

def isDeclarationFile (p : Path) : Bool := p.fileName?.any isDeclarationName

def isSkipped (p : Path) : Bool := p.fileName?.any isSkippedName

end Path
end MarkupCatalog

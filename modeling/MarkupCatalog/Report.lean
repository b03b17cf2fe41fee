import MarkupCatalog.Document.Basic
import MarkupCatalog.Extraction
import MarkupCatalog.FileSystem.Access
import MarkupCatalog.Grammar.Unit

/-!
# Reports

What a list of files defines together. Files that cannot be read are counted and left out.
-/

namespace MarkupCatalog

/-- What the source text of a file defines. -/
def Catalog.ofSource (f : Formatter) (p : Path) (source : String) : Except Failure Catalog := do
  let dialect ← Dialect.ofPath p
  let tree ← parseSource dialect source
  return tree.extract f

/-- What a file defines. -/
def Catalog.ofFile (fs : FileSystem) (f : Formatter) (p : Path) : Except Failure Catalog :=
  match fs.readText p with
  | .error e => .error (.fileAccess e)
  | .ok source => ofSource f p source

structure Report where
  document : Document
  /-- The number of files that count in the document. -/
  processed : Nat
  /-- The number of files that could not be read. -/
  failed : Nat
  /-- The size of all texts, modulo `2 ^ 64`. -/
  bytes : UInt64

namespace Report

def empty : Report := { document := .empty, processed := 0, failed := 0, bytes := 0 }

/-- The size of the text of a file; nothing for a file that holds no text. -/
def sizeOf (fs : FileSystem) (p : Path) : UInt64 :=
  match fs.readText p with
  | .ok text => text.utf8ByteSize.toUInt64
  | .error _ => 0

/-- The report with one more file. -/
def push (fs : FileSystem) (f : Formatter) (r : Report) (p : Path) : Report :=
  let bytes := r.bytes + sizeOf fs p
  match Catalog.ofFile fs f p with
  | .ok c => { r with document := r.document.add c, processed := r.processed + 1, bytes }
  | .error _ => { r with failed := r.failed + 1, bytes }

/-- The report on files, in their order. -/
def ofFiles (fs : FileSystem) (f : Formatter) (files : List Path) : Report :=
  files.foldl (push fs f) empty

end Report
end MarkupCatalog

import MarkupCatalog.FileSystem.Basic
import MarkupCatalog.Path

/-!
# Changes

What differs between two states of a file system where nothing has been removed: the directories and
links that are new, and the files that are new or have other content.
-/

namespace MarkupCatalog

namespace Node

/-- What is new at a path, directories before what they hold. -/
def changes (p : Path) (old : Option Node) : Node → List (Path × Node)
  | file content =>
    match old with
    | some (file before) => if before = content then [] else [(p, file content)]
    | _ => [(p, file content)]
  | link target =>
    match old with
    | some _ => []
    | none => [(p, link target)]
  | directory entries =>
    let before := match old with
      | some (directory es) => es
      | _ => []
    (if old.isNone then [(p, directory [])] else []) ++ entriesChanges p before entries
where
  /-- What is new among entries below a path. -/
  entriesChanges (p : Path) (old : List (RawText × Node)) :
      List (RawText × Node) → List (Path × Node)
    | [] => []
    | (name, node) :: r =>
      changes (p.join ⟨name⟩) (named? name old) node ++ entriesChanges p old r

end Node

def FileSystem.changes (old new : FileSystem) : List (Path × Node) :=
  Node.changes ⟨"/"⟩ (some (.directory old.entries)) (.directory new.entries)

end MarkupCatalog

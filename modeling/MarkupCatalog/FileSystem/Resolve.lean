import MarkupCatalog.Failure
import MarkupCatalog.FileSystem.Basic
import MarkupCatalog.Path

/-!
# Where paths lead

A path is followed component by component from the top. Links on the way are followed, up to forty
of them.
-/

namespace MarkupCatalog.FileSystem

/-- Where a path leads: to a node, or to a name that its directory does not hold. -/
inductive Target where
  | present (place : Place) (node : Node)
  | absent (directory : Place) (name : RawText)

def maxLinks : Nat := 40

def maxNameSize : Nat := 255

/-- Follows components from the directory at a place. The last component is followed if it is a link
and `followLast` holds. `links` is the number of links that may still be followed. -/
def follow (fs : FileSystem) (followLast : Bool) (links : Nat) (place : Place)
    (components : List Path.Component) : Except FileFault Target :=
  match components with
  | [] =>
    match fs.at? place with
    | some node => .ok (.present place node)
    | none => .error .notFound
  | .root :: r => follow fs followLast links [] r
  | .here :: r => follow fs followLast links place r
  | .up :: r => follow fs followLast links place.dropLast r
  | .name n :: r =>
    if n.bytes.length > maxNameSize then .error .nameTooLong
    else
      match fs.at? (place ++ [n]), r with
      | none, [] => .ok (.absent place n)
      | none, _ :: _ => .error .notFound
      | some (.link target), _ =>
        if r = [] ∧ !followLast then .ok (.present (place ++ [n]) (.link target))
        else
          match links with
          | 0 => .error .tooManyLinks
          | links + 1 =>
            if target.bytes = [] then .error .notFound
            else follow fs followLast links place (Path.components ⟨target⟩ ++ r)
      | some (.file content), [] => .ok (.present (place ++ [n]) (.file content))
      | some (.file _), _ :: _ => .error .notDirectory
      | some (.directory _), r => follow fs followLast links (place ++ [n]) r
termination_by (links, components.length)

/-- Where the components of a path lead. -/
def locate (fs : FileSystem) (followLast : Bool) (p : Path) : Except FileFault Target :=
  if p.raw.bytes = [] then .error .notFound
  else if p.raw.bytes.contains 0 then .error .nulInPath
  else fs.follow followLast maxLinks [] p.components

/-- Where a path leads. A path that ends as a directory leads to directories only. -/
def target (fs : FileSystem) (followLast : Bool) (p : Path) : Except FileFault Target :=
  match fs.locate (followLast || p.endsAsDirectory) p with
  | .ok (.present place (.file content)) =>
    if p.endsAsDirectory then .error .notDirectory else .ok (.present place (.file content))
  | result => result

end MarkupCatalog.FileSystem

import MarkupCatalog.Text.Raw

/-!
# File systems

A file system is a tree of directories that hold files, symbolic links and directories. A place in
it is the list of names that lead to it from the top; links are not followed on the way. Names need
not be texts.
-/

namespace MarkupCatalog

inductive Node where
  | file (content : ByteArray)
  | link (target : RawText)
  /-- The entries in the order in which they are enumerated. -/
  | directory (entries : List (RawText × Node))

namespace Node

/-- The entry with a name; the first one, should there be several. -/
def named? (name : RawText) : List (RawText × Node) → Option Node
  | [] => none
  | (n, node) :: r => if n = name then some node else named? name r

/-- The entries with another node under a name. A new name goes to the end. -/
def setNamed (name : RawText) (node : Node) : List (RawText × Node) → List (RawText × Node)
  | [] => [(name, node)]
  | (n, old) :: r => if n = name then (n, node) :: r else (n, old) :: setNamed name node r

/-- The node at a place. -/
def at? (node : Node) : List RawText → Option Node
  | [] => some node
  | name :: names =>
    match node with
    | directory entries => (named? name entries).bind fun child => child.at? names
    | _ => none

/-- The tree with another node at a place. Where no directory leads there, nothing changes. -/
def set (node new : Node) : List RawText → Node
  | [] => new
  | name :: names =>
    match node with
    | directory entries =>
      match names, named? name entries with
      | [], _ => directory (setNamed name new entries)
      | _ :: _, some child => directory (setNamed name (child.set new names) entries)
      | _ :: _, none => node
    | _ => node

/-- The tree without the node at a place. -/
def erase (node : Node) : List RawText → Node
  | [] => node
  | name :: names =>
    match node with
    | directory entries =>
      match names, named? name entries with
      | [], _ => directory (entries.filter fun e => e.1 ≠ name)
      | _ :: _, some child => directory (setNamed name (child.erase names) entries)
      | _ :: _, none => node
    | _ => node

end Node

/-- The top directory. -/
structure FileSystem where
  entries : List (RawText × Node)

namespace FileSystem

def empty : FileSystem := ⟨[]⟩

abbrev Place := List RawText

def at? (fs : FileSystem) (place : Place) : Option Node := (Node.directory fs.entries).at? place

/-- Puts a node at a place. The top stays a directory. -/
def set (fs : FileSystem) (place : Place) (node : Node) : FileSystem :=
  match (Node.directory fs.entries).set node place with
  | .directory entries => ⟨entries⟩
  | _ => fs

def erase (fs : FileSystem) (place : Place) : FileSystem :=
  match (Node.directory fs.entries).erase place with
  | .directory entries => ⟨entries⟩
  | _ => fs

end FileSystem
end MarkupCatalog

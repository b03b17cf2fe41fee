import MarkupCatalog.FileSystem.Resolve

/-!
# Reading and writing

What can be asked of a file system and what can be changed in it. A change gives the new file system
together with the outcome, because a change that fails may have been carried out in part.
-/

namespace MarkupCatalog.FileSystem

/-! ## 1. Reading -/

/-- The node that a path leads to. -/
def node? (fs : FileSystem) (p : Path) : Except FileFault Node :=
  match fs.target true p with
  | .ok (.present _ node) => .ok node
  | .ok (.absent _ _) => .error .notFound
  | .error e => .error e

def isFile (fs : FileSystem) (p : Path) : Bool :=
  match fs.node? p with
  | .ok (.file _) => true
  | _ => false

/-- The entries of the directory that a path leads to. -/
def directory? (fs : FileSystem) (p : Path) : Option (List (RawText × Node)) :=
  match fs.node? p with
  | .ok (.directory entries) => some entries
  | _ => none

def isDirectory (fs : FileSystem) (p : Path) : Bool := (fs.directory? p).isSome

def read (fs : FileSystem) (p : Path) : Except FileFault ByteArray :=
  match fs.node? p with
  | .ok (.file content) => .ok content
  | .ok _ => .error .isDirectory
  | .error e => .error e

/-- The text of a file. -/
def readText (fs : FileSystem) (p : Path) : Except FileFault String :=
  match fs.read p with
  | .ok content =>
    match String.fromUTF8? content with
    | some text => .ok text
    | none => .error .notText
  | .error e => .error e

/-! ## 2. Writing -/

abbrev Change := FileSystem × Except FileFault Unit

/-- Gives a file its content. The file is created if its directory holds no entry of its name. A
path that means a directory cannot be written: with a slash at its end its last name is not looked
up, with a dot it is. -/
def write (fs : FileSystem) (p : Path) (content : ByteArray) : Change :=
  if p.endsInSlash && !p.endsInDot then
    match fs.locate false p with
    | .error e => (fs, .error e)
    | .ok _ => (fs, .error .isDirectory)
  else
    match fs.locate true p with
    | .error e => (fs, .error e)
    | .ok (.present _ (.directory _)) => (fs, .error .isDirectory)
    | .ok (.present place _) =>
      if p.endsInDot then (fs, .error .notDirectory) else (fs.set place (.file content), .ok ())
    | .ok (.absent place name) =>
      if p.endsInDot then (fs, .error .notFound)
      else (fs.set (place ++ [name]) (.file content), .ok ())

/-- Creates a directory in one that exists. -/
def makeDirectory (fs : FileSystem) (components : List Path.Component) : Change :=
  if components.any Path.Component.hasNul then (fs, .error .nulInPath)
  else
    match fs.follow false maxLinks [] components with
    | .error e => (fs, .error e)
    | .ok (.present _ _) => (fs, .error .alreadyExists)
    | .ok (.absent place name) => (fs.set (place ++ [name]) (.directory []), .ok ())

/-- The components lead to a directory. -/
def leadsToDirectory (fs : FileSystem) (components : List Path.Component) : Bool :=
  match fs.follow true maxLinks [] components with
  | .ok (.present _ (.directory _)) => true
  | _ => false

/-- Creates a directory, unless there is one. -/
def ensureDirectory (fs : FileSystem) (components : List Path.Component) : Change :=
  match fs.makeDirectory components with
  | (fs, .ok ()) => (fs, .ok ())
  | (fs, .error e) => (fs, if fs.leadsToDirectory components then .ok () else .error e)

/-- Creates a directory together with those above it that are missing. The components are given
from the last one to the first. -/
def ensureDirectories (fs : FileSystem) : List Path.Component → Change
  | [] => (fs, .ok ())
  | c :: above =>
    match fs.makeDirectory (c :: above).reverse with
    | (fs, .error .notFound) =>
      match fs.ensureDirectories above with
      | (fs, .ok ()) => fs.ensureDirectory (c :: above).reverse
      | (fs, .error e) => (fs, .error e)
    | (fs, .error e) => (fs, if fs.leadsToDirectory (c :: above).reverse then .ok () else .error e)
    | (fs, .ok ()) => (fs, .ok ())

/-- Writes a file after creating the directories above it that are missing. -/
def writeWithDirectories (fs : FileSystem) (p : Path) (content : ByteArray) : Change :=
  match fs.ensureDirectories p.components.reverse.tail with
  | (fs, .ok ()) => fs.write p content
  | (fs, .error e) => (fs, .error e)

/-! ## 3. Links and removal -/

/-- Creates a symbolic link. -/
def makeLink (fs : FileSystem) (p : Path) (target : RawText) : Change :=
  match fs.target false p with
  | .error e => (fs, .error e)
  | .ok (.present _ _) => (fs, .error .alreadyExists)
  | .ok (.absent place name) => (fs.set (place ++ [name]) (.link target), .ok ())

/-- Removes what a path leads to, with all that it holds. A link is removed, not followed. -/
def remove (fs : FileSystem) (p : Path) : Change :=
  match fs.target false p with
  | .error e => (fs, .error e)
  | .ok (.present place _) => (fs.erase place, .ok ())
  | .ok (.absent _ _) => (fs, .error .notFound)

end MarkupCatalog.FileSystem

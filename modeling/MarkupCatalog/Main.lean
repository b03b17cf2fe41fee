import MarkupCatalog.CommandLine.Help
import MarkupCatalog.FileSystem.Changes
import MarkupCatalog.Run

/-!
# The program

The command line program: it reads what a run needs from the disk, makes the run, and carries out
the changes that the run makes.
-/

namespace MarkupCatalog.Program

/-! ## 1. Reading the disk -/

/-- Bytes that are no text. They stand for a file that cannot be read. -/
def noText : ByteArray := ⟨#[0xff]⟩

/-- The node at a path; links are not followed. `deep` says that directories are read with all that
they hold. -/
partial def readNode (deep : Bool) (p : String) : IO (Option Node) := do
  let here ← IO.currentDir
  let kind ← try pure (some (← (here / p).symlinkMetadata).type) catch _ => pure none
  match kind with
  | some .file => return some (.file (← try IO.FS.readBinFile p catch _ => pure noText))
  | some .symlink => return some (.link (← IO.FS.realPath p).toString)
  | some .dir =>
    if !deep then return some (.directory [])
    let found ← try (here / p).readDir catch _ => pure #[]
    let mut entries : Array (RawText × Node) := #[]
    for entry in found do
      if let some node ← readNode deep (Path.join ⟨p⟩ ⟨entry.fileName⟩).text then
        entries := entries.push (entry.fileName, node)
    return some (.directory entries.toList)
  | _ => return none

/-- Adds what lies along a path to a file system, and what the last component leads to. -/
partial def addPath (deep : Bool) (fs : FileSystem) (place : FileSystem.Place)
    (components : List Path.Component) : IO FileSystem := do
  match components with
  | [] => return fs
  | .root :: r => addPath deep fs [] r
  | .here :: r => addPath deep fs place r
  | .up :: r => addPath deep fs place.dropLast r
  | .name n :: r =>
    let place' := place ++ [n]
    let p := (Selection.pathOf ⟨"/"⟩ place').text
    let whole := deep && r.isEmpty
    match ← readNode whole p with
    | none => return fs
    | some (.link target) =>
      let fs := fs.set place' (.link target)
      let followed := Path.components ⟨target⟩ ++ r
      if target == (p : RawText) then return fs else addPath deep fs [] followed
    | some node =>
      let known := match fs.at? place' with
        | some (.directory _) => !whole
        | _ => false
      addPath deep (if known then fs else fs.set place' node) place' r

/-! ## 2. Runs -/

/-- The part of the disk that a run reads. -/
def snapshot (directory : Path) (o : CommandLine.Options) : IO FileSystem := do
  let add (deep : Bool) (fs : FileSystem) (p : Path) := addPath deep fs [] p.components
  let fs ← add false .empty directory
  let fs ← add false fs (directory.join (o.settingsPath.getD ⟨Settings.fileName⟩))
  match Settings.load fs directory o.settingsPath o.layer with
  | .error _ => return fs
  | .ok s =>
    let fs ← add true fs (Selection.walkRoot directory s.files)
    add false fs (s.destinationPath directory)

/-- Carries out what a run has changed. -/
def carryOut (changes : List (Path × Node)) : IO Unit := do
  for (p, node) in changes do
    match node with
    | .directory _ => IO.FS.createDir p.text
    | .file content => IO.FS.writeBinFile p.text content
    | .link _ => pure ()

end MarkupCatalog.Program

open MarkupCatalog MarkupCatalog.Program in
def main (args : List String) : IO UInt32 := do
  let directory : Path := ⟨(← IO.currentDir).toString⟩
  let environment ← IO.getEnv "NG_HTML_DATA_CONFIG"
  let fs ← match CommandLine.parse args environment with
    | .ok o => snapshot directory o
    | .error _ => pure .empty
  let outcome := run fs directory args environment
  try carryOut (fs.changes outcome.fileSystem)
  catch e =>
    IO.eprintln ("Error: " ++ (Failure.fileAccess (.other (toString e))).message)
    return 3
  IO.print outcome.output
  match outcome.refusal, outcome.failure with
  | some .help, _ => IO.println CommandLine.help
  | some r, _ => if r.exitCode ≠ 0 then IO.eprintln (r.message ++ "\n\n" ++ CommandLine.usage)
  | none, some e => IO.eprintln ("Error: " ++ e.message)
  | none, none => pure ()
  return outcome.exitCode.toUInt32

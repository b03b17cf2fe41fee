import MarkupCatalog.CommandLine.Parser
import MarkupCatalog.Document.Text
import MarkupCatalog.Report
import MarkupCatalog.Selection
import MarkupCatalog.Settings.Load

/-!
# Runs

A run from its command line to its exit code: the settings are loaded, files are selected and read,
and the document is written or printed. A run sees a file system and leaves one.
-/

namespace MarkupCatalog

def programName : String := "ng-html-data"

def programVersion : String := "0.3.0"

/-- What a run leaves behind. -/
structure Outcome where
  fileSystem : FileSystem
  output : String := ""
  /-- Why the command line started no run. -/
  refusal : Option CommandLine.Refusal := none
  /-- Why the run failed. -/
  failure : Option Failure := none

def Outcome.exitCode (o : Outcome) : Nat :=
  match o.refusal, o.failure with
  | some r, _ => r.exitCode
  | none, some f => f.exitCode
  | none, none => 0

namespace Report

/-- The report on the files that settings select. -/
def ofSettings (fs : FileSystem) (directory : Path) (s : Settings) :
    Except Failure (List Path × Report) :=
  (fs.select directory s.files s.exclude).map fun files => (files, ofFiles fs s.formatter files)

/-- One line about a document that has been written. -/
def summary (r : Report) (destination : Path) : String :=
  "Wrote " ++ toString r.document.tags.length ++ " tags and " ++
    toString r.document.globalAttributes.length ++ " global attributes from " ++
    toString r.processed ++ " files to " ++ destination.text

end Report

/-- Writes a document, with the directories above it that are missing. -/
def FileSystem.writeDocument (fs : FileSystem) (p : Path) (d : Document) :
    FileSystem × Except Failure Unit :=
  match fs.ensureDirectories p.components.reverse.tail with
  | (fs, .error e) => (fs, .error (.fileAccess e))
  | (fs, .ok ()) =>
    match d.serialize with
    | .error e => (fs, .error e)
    | .ok text =>
      match fs.write p text.toUTF8 with
      | (fs, .ok ()) => (fs, .ok ())
      | (fs, .error e) => (fs, .error (.fileAccess e))

/-- The directories are made first, but the outcome is that of writing the text. -/
theorem FileSystem.writeDocument_eq (fs : FileSystem) (p : Path) (d : Document) :
    fs.writeDocument p d =
      match fs.writeWithDirectories p d.text.toUTF8 with
      | (fs, .ok ()) => (fs, .ok ())
      | (fs, .error e) => (fs, .error (.fileAccess e)) := by
  unfold writeDocument writeWithDirectories
  rw [Document.serialize_eq]
  rcases fs.ensureDirectories p.components.reverse.tail with ⟨fs', _ | _⟩ <;> rfl

/-- A run with an accepted command line. -/
def runWith (fs : FileSystem) (directory : Path) (o : CommandLine.Options) : Outcome :=
  let result := do
    let settings ← Settings.load fs directory o.settingsPath o.layer
    let (_, report) ← Report.ofSettings fs directory settings
    return (settings, report)
  match result with
  | .error e => { fileSystem := fs, failure := some e }
  | .ok (settings, report) =>
    if o.toStdout then
      match report.document.serialize with
      | .ok text => { fileSystem := fs, output := text ++ "\n" }
      | .error e => { fileSystem := fs, failure := some e }
    else
      let destination := settings.destinationPath directory
      match fs.writeDocument destination report.document with
      | (fs, .ok ()) => { fileSystem := fs, output := report.summary destination ++ "\n" }
      | (fs, .error e) => { fileSystem := fs, failure := some e }

/-- A run in a working directory. `environment` is the settings file that the environment names. -/
def run (fs : FileSystem) (directory : Path) (args : List String) (environment : Option String) :
    Outcome :=
  match CommandLine.parse args environment with
  | .error .version =>
    { fileSystem := fs, refusal := some .version,
      output := programName ++ " " ++ programVersion ++ "\n" }
  | .error r => { fileSystem := fs, refusal := some r }
  | .ok o => runWith fs directory o

end MarkupCatalog

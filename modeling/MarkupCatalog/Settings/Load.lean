import MarkupCatalog.FileSystem.Access
import MarkupCatalog.Settings.Text

/-!
# Loading settings

A settings file that is named has to be there. Without one, the settings file of the working
directory counts if there is one.
-/

namespace MarkupCatalog.Settings

/-- The name of the settings file in a working directory. -/
def fileName : String := ".ng-html-data.json"

/-- The layer that a settings file holds. -/
def Layer.ofFile (fs : FileSystem) (p : Path) : Except Failure Layer :=
  match fs.readText p with
  | .error e => .error (.badSettings p.text e.message)
  | .ok text =>
    match Layer.ofText text with
    | .error message => .error (.badSettings p.text message)
    | .ok layer => .ok layer

/-- The settings file that is read. -/
def file? (fs : FileSystem) (directory : Path) (named : Option Path) : Option Path :=
  match named with
  | some p => some (directory.join p)
  | none =>
    let p := directory.join ⟨fileName⟩
    if fs.isFile p then some p else none

/-- The defaults, overridden by the settings file and then by a layer. -/
def load (fs : FileSystem) (directory : Path) (named : Option Path) (overrides : Layer) :
    Except Failure Settings :=
  match file? fs directory named with
  | none => .ok (({} : Settings).apply overrides)
  | some p => (Layer.ofFile fs p).map fun l => (({} : Settings).apply l).apply overrides

/-- Where the document goes. -/
def destinationPath (s : Settings) (directory : Path) : Path := directory.join ⟨s.destination⟩

end MarkupCatalog.Settings

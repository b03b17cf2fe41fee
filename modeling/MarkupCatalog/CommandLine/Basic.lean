import MarkupCatalog.Path
import MarkupCatalog.Settings.Basic

/-!
# Command lines

What a command line can say: options with a value, and switches without one.
-/

namespace MarkupCatalog.CommandLine

/-- The options with a value. -/
inductive Setting where
  | files
  | destination
  | exclude
  | tagFormatter
  | attributeFormatter
  | config
  deriving DecidableEq, Repr

inductive Switch where
  | stdout
  | verbose
  | quiet
  | help
  | version
  deriving DecidableEq, Repr

inductive Name where
  | setting (s : Setting)
  | switch (s : Switch)
  deriving DecidableEq, Repr

/-- The names that follow two hyphens. -/
def longNames : List (String × Name) :=
  [("files", .setting .files), ("f", .setting .files),
    ("destination", .setting .destination), ("d", .setting .destination),
    ("exclude", .setting .exclude), ("tag-formatter", .setting .tagFormatter),
    ("attribute-formatter", .setting .attributeFormatter), ("config", .setting .config),
    ("stdout", .switch .stdout), ("verbose", .switch .verbose), ("quiet", .switch .quiet),
    ("help", .switch .help), ("version", .switch .version)]

/-- The letters that follow one hyphen. -/
def shortNames : List (Char × Name) :=
  [('f', .setting .files), ('d', .setting .destination), ('v', .switch .verbose),
    ('q', .switch .quiet), ('h', .switch .help), ('V', .switch .version)]

/-- Why a command line starts no run. The last two ask for a text instead of a run. -/
inductive Refusal where
  | unknownArgument
  | invalidValue
  | tooManyValues
  | argumentConflict
  | help
  | version
  deriving DecidableEq, Repr

def Refusal.exitCode : Refusal → Nat
  | help | version => 0
  | unknownArgument | invalidValue | tooManyValues | argumentConflict => 2

/-- What an accepted command line says. -/
structure Options where
  files : Option String := none
  destination : Option String := none
  exclude : List String := []
  tagDetail : Option Detail := none
  attributeDetail : Option Detail := none
  settingsPath : Option Path := none
  toStdout : Bool := false
  verbose : Bool := false
  quiet : Bool := false
  deriving DecidableEq, Repr

inductive LogLevel where
  | debug
  | warn
  | error
  deriving DecidableEq, Repr

namespace Options

/-- The settings that the command line overrides. -/
def layer (o : Options) : Settings.Layer :=
  { destination := o.destination
    files := o.files
    exclude := if o.exclude = [] then none else some o.exclude
    tagDetail := o.tagDetail
    attributeDetail := o.attributeDetail }

def logLevel (o : Options) : LogLevel :=
  if o.verbose then .debug else if o.quiet then .error else .warn

end Options
end MarkupCatalog.CommandLine

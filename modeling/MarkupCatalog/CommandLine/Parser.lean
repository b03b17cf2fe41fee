import MarkupCatalog.CommandLine.Basic

/-!
# Reading command lines

Arguments are read from left to right. An option takes its value from behind an equals sign, from
the rest of a group of letters, or from the next argument, and is carried out when the next option
comes or the arguments end. All but the globs to exclude may be given only once.
-/

namespace MarkupCatalog.CommandLine

/-- The options so far, and an option that is not carried out yet, with its value if it has come. -/
structure Progress where
  options : Options := {}
  pending : Option (Setting × Option String) := none

/-! ## 1. Carrying out -/

def detail (value : String) : Except Refusal Detail :=
  match Detail.ofName? value with
  | some d => .ok d
  | none => .error .invalidValue

/-- Gives a value to an option that may have one only. -/
def once (old : Option α) (set : Except Refusal Options) : Except Refusal Options :=
  if old.isSome then .error .argumentConflict else set

def path (value : String) : Except Refusal Path :=
  if value = "" then .error .invalidValue else .ok ⟨value⟩

def Options.assign (o : Options) (value : String) : Setting → Except Refusal Options
  | .files => once o.files (.ok { o with files := some value })
  | .destination => once o.destination (.ok { o with destination := some value })
  | .exclude => .ok { o with exclude := o.exclude ++ [value] }
  | .tagFormatter =>
    once o.tagDetail ((detail value).map fun d => { o with tagDetail := some d })
  | .attributeFormatter =>
    once o.attributeDetail ((detail value).map fun d => { o with attributeDetail := some d })
  | .config => once o.settingsPath ((path value).map fun p => { o with settingsPath := some p })

def Options.turnOn (o : Options) : Switch → Except Refusal Options
  | .stdout => if o.toStdout then .error .argumentConflict else .ok { o with toStdout := true }
  | .verbose => if o.verbose then .error .argumentConflict else .ok { o with verbose := true }
  | .quiet => if o.quiet then .error .argumentConflict else .ok { o with quiet := true }
  | .help => .error .help
  | .version => .error .version

namespace Progress

/-- Carries out the option that is pending. -/
def settle (p : Progress) : Except Refusal Options :=
  match p.pending with
  | none => .ok p.options
  | some (_, none) => .error .invalidValue
  | some (s, some value) => p.options.assign value s

def switch (p : Progress) (s : Switch) : Except Refusal Progress :=
  (p.settle.bind fun o => o.turnOn s).map fun o => { options := o }

/-- An option with its value at it. -/
def attached (p : Progress) (s : Setting) (value : String) : Except Refusal Progress :=
  (p.settle.bind fun o => o.assign value s).map fun o => { options := o }

/-- An option whose value is the next argument. -/
def awaiting (p : Progress) (s : Setting) : Except Refusal Progress :=
  p.settle.map fun o => { options := o, pending := some (s, none) }

/-! ## 2. Arguments -/

/-- An argument behind its two hyphens. -/
def long (p : Progress) (arg : List Char) : Except Refusal Progress :=
  let name := String.ofList (arg.takeWhile (· ≠ '='))
  let value := match arg.dropWhile (· ≠ '=') with
    | [] => none
    | _ :: r => some (String.ofList r)
  match (longNames.find? fun n => n.1 = name).map Prod.snd, value with
  | none, _ => .error .unknownArgument
  | some (.setting s), some v => p.attached s v
  | some (.setting s), none => p.awaiting s
  | some (.switch _), some _ => .error .tooManyValues
  | some (.switch s), none => p.switch s

/-- An argument behind its one hyphen: switches, and an option with what follows it as its value. -/
def short (p : Progress) : List Char → Except Refusal Progress
  | [] => .ok p
  | c :: r =>
    match (shortNames.find? fun n => n.1 = c).map Prod.snd with
    | none => .error .unknownArgument
    | some (.switch s) => (p.switch s).bind fun p => p.short r
    | some (.setting s) =>
      match r with
      | [] => p.awaiting s
      | '=' :: v => p.attached s (String.ofList v)
      | v => p.attached s (String.ofList v)

/-- An argument without hyphens, which is the value of an option that waits for one. -/
def plain (p : Progress) (arg : String) : Except Refusal Progress :=
  match p.pending with
  | some (s, none) => .ok { p with pending := some (s, some arg) }
  | _ => .error .unknownArgument

/-- All arguments. Behind two hyphens nothing can follow. -/
def all (p : Progress) : List String → Except Refusal Options
  | [] => p.settle
  | arg :: rest =>
    match arg.toList with
    | ['-', '-'] => if rest = [] then p.settle else .error .unknownArgument
    | '-' :: '-' :: r => (p.long r).bind fun p => p.all rest
    | ['-'] => (p.plain arg).bind fun p => p.all rest
    | '-' :: r => (p.short r).bind fun p => p.all rest
    | _ => (p.plain arg).bind fun p => p.all rest

end Progress

/-! ## 3. Whole command lines -/

/-- The settings file that the environment names, where the command line names none. -/
def Options.orElseSettings (o : Options) (named : Option String) : Except Refusal Options :=
  match o.settingsPath, named with
  | none, some value => (path value).map fun p => { o with settingsPath := some p }
  | _, _ => .ok o

/-- The options of a command line without the program's name. `environment` is the settings file
that the environment names. -/
def parse (args : List String) (environment : Option String) : Except Refusal Options := do
  let o ← Progress.all {} args
  let o ← o.orElseSettings environment
  if o.verbose && o.quiet then .error .argumentConflict else .ok o

end MarkupCatalog.CommandLine

import MarkupCatalog.Proofs.CommandLines
import MarkupCatalog.Proofs.JsonTexts
import MarkupCatalog.Proofs.SettingsTexts
import MarkupCatalog.Proofs.Texts
import MarkupCatalog.Proofs.WrittenFiles
import MarkupCatalog.Settings.Load

/-!
# Settings as options

The settings of a layer can be passed on the command line, each with its value behind an equals
sign.  The main statement is that this amounts to the same as a settings file that holds them.
-/

namespace MarkupCatalog

/-! ## 1. Options with values -/

namespace CommandLine

/-- The name of an option that follows two hyphens. -/
def Setting.name : Setting → String
  | files => "files"
  | destination => "destination"
  | exclude => "exclude"
  | tagFormatter => "tag-formatter"
  | attributeFormatter => "attribute-formatter"
  | config => "config"

/-- An option and its value as one argument. -/
def argument (a : Setting × String) : String := "--" ++ a.1.name ++ "=" ++ a.2

/-- The values of an option among others, in their order. -/
def valuesOf (as : List (Setting × String)) (s : Setting) : List String :=
  (as.filter fun a => a.1 = s).map Prod.snd

theorem valuesOf_append (as bs : List (Setting × String)) (s : Setting) :
    valuesOf (as ++ bs) s = valuesOf as s ++ valuesOf bs s := by
  rw [valuesOf, List.filter_append, List.map_append]
  rfl

theorem valuesOf_singleton (s t : Setting) (value : String) :
    valuesOf [(s, value)] t = if s = t then [value] else [] := by
  by_cases h : s = t <;> simp [valuesOf, h]

/-- The values that the options have for the settings of a layer. -/
def layerValues (l : Settings.Layer) : Setting → List String
  | .files => l.files.toList
  | .destination => l.destination.toList
  | .exclude => l.exclude.getD []
  | .tagFormatter => l.tagDetail.toList.map Detail.name
  | .attributeFormatter => l.attributeDetail.toList.map Detail.name
  | .config => []

/-- The options pass the settings of a layer and nothing else.  They may come in any order, as long
as the globs to exclude come in theirs. -/
def Passes (l : Settings.Layer) (as : List (Setting × String)) : Prop :=
  ∀ s, valuesOf as s = layerValues l s

/-! ## 2. Carrying out -/

/-- What a command line says that consists of options with values. -/
def Options.passed (as : List (Setting × String)) : Options :=
  { files := (valuesOf as .files).head?
    destination := (valuesOf as .destination).head?
    exclude := valuesOf as .exclude
    tagDetail := (valuesOf as .tagFormatter).head?.bind Detail.ofName?
    attributeDetail := (valuesOf as .attributeFormatter).head?.bind Detail.ofName? }

theorem ofName?_name (d : Detail) : Detail.ofName? d.name = some d := by
  cases d <;> decide

theorem detail_name (d : Detail) : detail d.name = .ok d := by
  unfold detail
  rw [ofName?_name]

/-- An option that passes a setting passes it once. -/
theorem passed_once {α : Type} {f : α → String} {x : Option α} {before after : List String}
    {value : String} (h : before ++ value :: after = x.toList.map f) :
    before = [] ∧ ∃ y, x = some y ∧ value = f y := by
  cases x with
  | none => simp at h
  | some y =>
    cases before with
    | nil => exact ⟨rfl, y, rfl, (List.cons.inj h).1⟩
    | cons w before => simp at h

/-- Options that pass the settings of a layer are carried out one by one. -/
theorem assign_passed {l : Settings.Layer} {as rest : List (Setting × String)} {s : Setting}
    {value : String} (h : Passes l (as ++ (s, value) :: rest)) :
    (Options.passed as).assign value s = .ok (Options.passed (as ++ [(s, value)])) := by
  have hvalues := h s
  rw [List.append_cons, valuesOf_append, valuesOf_append, valuesOf_singleton, if_pos rfl,
    ← List.append_cons] at hvalues
  -- no option but the one for globs has come before, so that none is given twice
  cases s with
  | files =>
    rw [layerValues, ← List.map_id l.files.toList] at hvalues
    obtain ⟨hnone, -⟩ := passed_once hvalues
    simp [Options.assign, once, Options.passed, valuesOf_append, valuesOf_singleton, hnone]
  | destination =>
    rw [layerValues, ← List.map_id l.destination.toList] at hvalues
    obtain ⟨hnone, -⟩ := passed_once hvalues
    simp [Options.assign, once, Options.passed, valuesOf_append, valuesOf_singleton, hnone]
  | exclude => simp [Options.assign, Options.passed, valuesOf_append, valuesOf_singleton]
  | tagFormatter =>
    obtain ⟨hnone, d, -, rfl⟩ := passed_once hvalues
    simp [Options.assign, once, Options.passed, valuesOf_append, valuesOf_singleton, hnone,
      detail_name, ofName?_name, Except.map]
  | attributeFormatter =>
    obtain ⟨hnone, d, -, rfl⟩ := passed_once hvalues
    simp [Options.assign, once, Options.passed, valuesOf_append, valuesOf_singleton, hnone,
      detail_name, ofName?_name, Except.map]
  | config => simp [layerValues] at hvalues

theorem toList_argument (s : Setting) (value : String) :
    (argument (s, value)).toList = '-' :: '-' :: (s.name.toList ++ '=' :: value.toList) := by
  simp [argument]

/-- An argument with an equals sign is an option with its value. -/
theorem step_argument (p : Progress) (s : Setting) (value : String) :
    p.step (argument (s, value)) = p.attached s value := by
  have hequals : '=' ∉ s.name.toList := by cases s <;> decide
  have hname : (longNames.find? fun n => n.1 = s.name).map Prod.snd = some (.setting s) := by
    cases s <;> decide
  have hlong : p.long (s.name.toList ++ '=' :: value.toList) = p.attached s value := by
    unfold Progress.long
    rw [Text.takeWhile_ne_append hequals, Text.dropWhile_ne_append hequals]
    simp only [String.ofList_toList, hname]
  rw [Progress.step, toList_argument]
  exact hlong

theorem all_passed {l : Settings.Layer} {as rest : List (Setting × String)}
    (h : Passes l (as ++ rest)) :
    Progress.all { options := .passed as } (rest.map argument) = .ok (.passed (as ++ rest)) := by
  -- nothing is pending between these options, since each has its value at it
  induction rest generalizing as with
  | nil =>
    rw [List.append_nil]
    rfl
  | cons a rest ih =>
    obtain ⟨s, value⟩ := a
    have hhyphens : (argument (s, value)).toList ≠ ['-', '-'] := by
      rw [toList_argument]
      simp
    have hassign := assign_passed h
    rw [List.append_cons] at h ⊢
    rw [List.map_cons, Progress.all_cons _ hhyphens, step_argument, ← ih h]
    unfold Progress.attached
    show ((((Options.passed as).assign value s).map _).bind _) = _
    rw [hassign]
    rfl

/-! ## 3. The layer of a command line -/

section Passes

variable {l : Settings.Layer} {as : List (Setting × String)} (h : Passes l as)

include h

theorem layer_passed (hexclude : l.exclude ≠ some []) : (Options.passed as).layer = l := by
  have hglobs : (if l.exclude.getD [] = [] then none else some (l.exclude.getD [])) =
      l.exclude := by
    cases hgiven : l.exclude with
    | none => rfl
    | some globs =>
      have hne : globs ≠ [] := fun h => hexclude (hgiven.trans (congrArg some h))
      exact if_neg hne
  have hdetail (d : Option Detail) :
      (d.toList.map Detail.name).head?.bind Detail.ofName? = d := by
    cases d with
    | none => rfl
    | some d => exact ofName?_name d
  unfold Options.layer Options.passed
  simp only [h .files, h .destination, h .exclude, h .tagFormatter, h .attributeFormatter,
    layerValues, hglobs, hdetail, Option.head?_toList]

/-- The command line is accepted, and overrides what the layer gives. -/
theorem parse_passed (hexclude : l.exclude ≠ some []) {environment : Option String}
    (henvironment : environment ≠ some "") :
    ∃ o, parse (as.map argument) environment = .ok o ∧ o.layer = l := by
  have hall : Progress.all { options := .passed [] } (as.map argument) = .ok (.passed as) :=
    all_passed h
  have hpath : (Options.passed as).settingsPath = none := rfl
  have hlayer := layer_passed h hexclude
  obtain ⟨o, helse, hsame⟩ : ∃ o, (Options.passed as).orElseSettings environment = .ok o ∧
      o.layer = l ∧ o.verbose = false := by
    unfold Options.orElseSettings
    cases environment with
    | none => exact ⟨_, rfl, hlayer, rfl⟩
    | some value =>
      have hvalue : value ≠ "" := fun h => henvironment (congrArg some h)
      refine ⟨{ Options.passed as with settingsPath := some ⟨value⟩ }, ?_, hlayer, rfl⟩
      simp [hpath, path, hvalue, Except.map]
  have hlog : (o.verbose && o.quiet) = false := by rw [hsame.2, Bool.false_and]
  exact ⟨o, parse_eq_ok_iff.mpr ⟨_, hall, helse, hlog⟩, hsame.1⟩

end Passes

end CommandLine

/-! ## 4. Two sources of the same settings -/

namespace Settings

open CommandLine Json

/-- Settings in the file of a directory amount to the same as options that pass them. -/
theorem load_passed {l : Layer} (hexclude : l.exclude ≠ some []) {fs : FileSystem}
    {directory : Path} {text : String}
    (htext : fs.readText (directory.join ⟨fileName⟩) = .ok text) (hheld : l.HeldBy text)
    {as : List (Setting × String)} (hpasses : Passes l as) {environment : Option String}
    (henvironment : environment ≠ some "") {fs' : FileSystem} {directory' : Path}
    (hnone : fs'.isFile (directory'.join ⟨fileName⟩) = false) :
    ∃ o s, parse (as.map argument) environment = .ok o ∧
      load fs directory none {} = .ok s ∧ load fs' directory' none o.layer = .ok s := by
  obtain ⟨o, hparse, hlayer⟩ := parse_passed hpasses hexclude henvironment
  refine ⟨o, ({} : Settings).apply l, hparse, ?_, ?_⟩
  · have hfile : file? fs directory none = some (directory.join ⟨fileName⟩) := by
      unfold file?
      simp only [FileSystem.isFile_of_readText htext, if_true]
    have hread : Layer.ofFile fs (directory.join ⟨fileName⟩) = .ok l := by
      unfold Layer.ofFile
      simp only [htext, Layer.ofText_of_heldBy hheld]
    unfold load
    rw [hfile]
    show (Layer.ofFile fs _).map _ = _
    rw [hread]
    -- a layer without settings changes nothing
    rfl
  · have hfile : file? fs' directory' none = none := by
      unfold file?
      simp only [hnone]
      rfl
    unfold load
    rw [hfile, hlayer]

/-- A file system that holds a settings file and nothing else. -/
def settingsOnly (text : String) : FileSystem := ⟨[(fileName, .file text.toUTF8)]⟩

theorem components_fileName :
    Path.components (Path.join ⟨"/"⟩ ⟨fileName⟩) = [.root, .name fileName] := by decide

theorem readText_settingsOnly (text : String) :
    (settingsOnly text).readText (Path.join ⟨"/"⟩ ⟨fileName⟩) = .ok text := by
  apply FileSystem.readText_of_read
  unfold FileSystem.read FileSystem.node? FileSystem.target FileSystem.locate
  rw [components_fileName, FileSystem.follow_root, FileSystem.follow_name_file (by decide) rfl]
  rfl

theorem isFile_empty : FileSystem.isFile ⟨[]⟩ (Path.join ⟨"/"⟩ ⟨fileName⟩) = false := by
  unfold FileSystem.isFile FileSystem.node? FileSystem.target FileSystem.locate
  rw [components_fileName, FileSystem.follow_root, FileSystem.follow_name_absent (by decide) rfl]
  rfl

/-- Members out of order and a character beyond sixteen bits by its code, and two options for the
globs with another between them. -/
theorem load_passed_summary :
    let l : Layer :=
      { destination := some "😀.json", exclude := some ["a=b", "c"], tagDetail := some .summary }
    let text := "\x7b \"tagFormatter\" : \"summary\",\n \"exclude\":[\"a=b\", \"c\"] ,\n " ++
      "\"destination\":\"\\ud83d\\uDE00.json\", \"files\":null\x7d\n"
    let as : List (Setting × String) :=
      [(.exclude, "a=b"), (.destination, "😀.json"), (.exclude, "c"), (.tagFormatter, "summary")]
    as.map argument =
        ["--exclude=a=b", "--destination=😀.json", "--exclude=c", "--tag-formatter=summary"] ∧
      l.HeldBy text ∧
      ∃ o s, parse (as.map argument) none = .ok o ∧
        load (settingsOnly text) ⟨"/"⟩ none {} = .ok s ∧ load ⟨[]⟩ ⟨"/"⟩ none o.layer = .ok s := by
  intro l text as
  have hblank : Space [' '] := .cons rfl .nil
  have hbreak : Space ['\n', ' '] := .cons rfl hblank
  have hplain (s : String) : Spells (.string s) (writeString s) := .string (spells_writeString s)
  have hname (s : String) := spellsBody_escaped s
  have hhigh : SpellsCode 0xd83d ['d', '8', '3', 'd'] :=
    .digits (.small (n := 13) (by decide)) (.small (n := 8) (by decide))
      (.small (n := 3) (by decide)) (.small (n := 13) (by decide))
  have hlow : SpellsCode 0xde00 ['D', 'E', '0', '0'] :=
    .digits (.capital (n := 13) (by decide)) (.capital (n := 14) (by decide))
      (.small (n := 0) (by decide)) (.small (n := 0) (by decide))
  have hface : SpellsChar '😀' _ := .pair (n := 0xf600) (by decide) hhigh hlow
  have htag : SpellsMember Spells ("tagFormatter", .string "summary") _ :=
    .mk (hname _) hblank hblank (hplain _)
  have hexclude : SpellsMember Spells ("exclude", .list [.string "a=b", .string "c"]) _ :=
    .mk (hname _) .nil .nil
      (.list (.cons .nil (hplain _) (.cons .nil hblank (hplain _) (.nil .nil))))
  have hdestination : SpellsMember Spells ("destination", .string "😀.json") _ :=
    .mk (hname _) .nil .nil (.string (.quoted (.cons (by decide) hface (hname ".json"))))
  have hfiles : SpellsMember Spells ("files", .null) _ := .mk (hname _) .nil .nil .null
  have hobject := Spells.object (.cons hblank htag (.cons .nil hbreak hexclude
    (.cons hblank hbreak hdestination (.cons .nil hblank hfiles (.nil .nil)))))
  have hheld : l.HeldBy text :=
    ⟨[.tagFormatter, .exclude, .destination, .files], by decide, fun k => by cases k <;> decide,
      [], _, ['\n'], .nil, .cons rfl .nil, hobject, by decide +kernel⟩
  have hpasses : Passes l as := by
    intro s
    cases s <;> rfl
  exact ⟨by decide, hheld, load_passed (by decide) (readText_settingsOnly text) hheld hpasses
    (by decide) isFile_empty⟩

end Settings

end MarkupCatalog

import MarkupCatalog.Proofs.FileShapes
import MarkupCatalog.Proofs.RunOutcomes

/-!
# Exit codes

Why a run exits with which code.  What source files hold has no part in it: files that cannot be
read are counted, and a run on the same files with other contents exits with the same code.
-/

namespace MarkupCatalog

open FileSystem CommandLine

/-! ## 1. Causes -/

/-- The text can be read as a glob. -/
def Glob.IsValid (text : String) : Prop := ∃ r, Rule.parse "" text = .ok r

/-- The globs that are read: the pattern below its literal root, and the exclude patterns. -/
def Settings.globs (s : Settings) : List String :=
  (Glob.Rooted.ofPattern s.files).tied :: s.exclude

/-- A file can be written at the end of a path. -/
def FileSystem.Writable (fs : FileSystem) (p : Path) : Prop :=
  ∃ content, (fs.writeWithDirectories p content).2 = .ok ()

/-- What the caller has got wrong: the settings cannot be loaded or, where there is a directory to
walk, a glob cannot be read. -/
inductive Misused (fs : FileSystem) (directory : Path) (o : Options) : Prop
  | settings {e : Failure} (h : Settings.load fs directory o.settingsPath o.layer = .error e)
  | glob {s : Settings} (hs : Settings.load fs directory o.settingsPath o.layer = .ok s)
      (hroot : fs.isDirectory (Selection.walkRoot directory s.files) = true) {glob : String}
      (hglob : glob ∈ s.globs) (h : ¬ Glob.IsValid glob)

/-- What the system does not provide: a directory to walk or, if the document is to be written, a
place for it. -/
inductive Refused (fs : FileSystem) (directory : Path) (o : Options) : Prop
  | root {s : Settings} (hs : Settings.load fs directory o.settingsPath o.layer = .ok s)
      (h : fs.isDirectory (Selection.walkRoot directory s.files) = false)
  | destination {s : Settings} (hs : Settings.load fs directory o.settingsPath o.layer = .ok s)
      (hglobs : ∀ glob ∈ s.globs, Glob.IsValid glob) (hstdout : o.toStdout = false)
      (h : ¬ fs.Writable (s.destinationPath directory))

theorem Settings.exitCode_of_load_error {fs : FileSystem} {directory : Path} {named : Option Path}
    {overrides : Layer} {e : Failure} (h : load fs directory named overrides = .error e) :
    e.exitCode = 2 := by
  unfold load at h
  split at h
  next => cases h
  next p _ =>
    unfold Layer.ofFile at h
    split at h
    next =>
      cases h
      rfl
    next =>
      split at h
      next =>
        cases h
        rfl
      next => cases h

namespace Selection

theorem exitCode_of_rule_error {pattern shown text : String} {e : Failure}
    (h : rule pattern shown text = .error e) : e.exitCode = 2 ∧ ¬ Glob.IsValid text := by
  constructor
  · unfold rule at h
    split at h
    next => cases h
    next =>
      cases h
      rfl
  · rintro ⟨r, hparse⟩
    rw [(rule_eq_ok_iff pattern shown text r).mpr hparse] at h
    cases h

/-- Either all patterns can be read, or the first that cannot makes the run fail. -/
theorem exitCode_of_rules_error {excludes : List String} {e : Failure}
    (h : excludes.mapM (fun e => rule e "!" e) = .error e) :
    e.exitCode = 2 ∧ ∃ glob ∈ excludes, ¬ Glob.IsValid glob := by
  induction excludes with
  | nil => cases h
  | cons glob excludes ih =>
    rw [List.mapM_cons] at h
    cases hrule : rule glob "!" glob with
    | error e' =>
      rw [bind_of_error hrule] at h
      cases h
      obtain ⟨hexit, hglob⟩ := exitCode_of_rule_error hrule
      exact ⟨hexit, glob, List.mem_cons_self, hglob⟩
    | ok r =>
      rw [bind_of_ok hrule] at h
      cases hrules : excludes.mapM (fun e => rule e "!" e) with
      | error e' =>
        rw [bind_of_error hrules] at h
        cases h
        obtain ⟨hexit, glob', hglob', hinvalid⟩ := ih hrules
        exact ⟨hexit, glob', List.mem_cons_of_mem _ hglob', hinvalid⟩
      | ok rules =>
        rw [bind_of_ok hrules] at h
        cases h

theorem isValid_of_rules {excludes : List String} {rules : List Glob.Rule}
    (h : excludes.mapM (fun e => rule e "!" e) = .ok rules) :
    ∀ glob ∈ excludes, Glob.IsValid glob := by
  induction excludes generalizing rules with
  | nil => exact fun _ hglob => absurd hglob List.not_mem_nil
  | cons glob excludes ih =>
    rw [List.mapM_cons] at h
    obtain ⟨r, hrule, h⟩ := bind_eq_ok h
    obtain ⟨rest, hrest, -⟩ := bind_eq_ok h
    intro glob' hglob'
    rcases List.mem_cons.mp hglob' with rfl | hglob'
    · exact ⟨r, (rule_eq_ok_iff _ _ _ r).mp hrule⟩
    · exact ih hrest glob' hglob'

variable {pattern : String} {excludes : List String}

theorem exitCode_of_ofPatterns_error {e : Failure} (h : ofPatterns pattern excludes = .error e) :
    e.exitCode = 2 ∧
      ∃ glob ∈ (Glob.Rooted.ofPattern pattern).tied :: excludes, ¬ Glob.IsValid glob := by
  unfold ofPatterns at h
  cases hincluded : rule pattern "" (Glob.Rooted.ofPattern pattern).tied with
  | error e' =>
    rw [bind_of_error hincluded] at h
    cases h
    obtain ⟨hexit, hglob⟩ := exitCode_of_rule_error hincluded
    exact ⟨hexit, _, List.mem_cons_self, hglob⟩
  | ok included =>
    rw [bind_of_ok hincluded] at h
    cases hexcluded : excludes.mapM (fun e => rule e "!" e) with
    | error e' =>
      rw [bind_of_error hexcluded] at h
      cases h
      obtain ⟨hexit, glob, hglob, hinvalid⟩ := exitCode_of_rules_error hexcluded
      exact ⟨hexit, glob, List.mem_cons_of_mem _ hglob, hinvalid⟩
    | ok excluded =>
      rw [bind_of_ok hexcluded] at h
      cases h

theorem isValid_of_ofPatterns {s : Selection} (h : ofPatterns pattern excludes = .ok s) :
    ∀ glob ∈ (Glob.Rooted.ofPattern pattern).tied :: excludes, Glob.IsValid glob := by
  unfold ofPatterns at h
  obtain ⟨included, hincluded, h⟩ := bind_eq_ok h
  obtain ⟨excluded, hexcluded, -⟩ := bind_eq_ok h
  intro glob hglob
  rcases List.mem_cons.mp hglob with rfl | hglob
  · exact ⟨included, (rule_eq_ok_iff _ _ _ included).mp hincluded⟩
  · exact isValid_of_rules hexcluded glob hglob

end Selection

/-! ## 2. The code of a run -/

section Causes

variable {fs : FileSystem} {directory : Path} {o : Options} {s : Settings}
  (hs : Settings.load fs directory o.settingsPath o.layer = .ok s)

include hs

theorem misused_iff : Misused fs directory o ↔
    fs.isDirectory (Selection.walkRoot directory s.files) = true ∧
      ∃ glob ∈ s.globs, ¬ Glob.IsValid glob := by
  constructor
  · rintro (h | ⟨hs', hroot, hglob, h⟩)
    · rw [hs] at h
      cases h
    · obtain rfl := Except.ok.inj (hs.symm.trans hs')
      exact ⟨hroot, _, hglob, h⟩
  · rintro ⟨hroot, glob, hglob, h⟩
    exact .glob hs hroot hglob h

theorem refused_iff : Refused fs directory o ↔
    fs.isDirectory (Selection.walkRoot directory s.files) = false ∨
      (∀ glob ∈ s.globs, Glob.IsValid glob) ∧ o.toStdout = false ∧
        ¬ fs.Writable (s.destinationPath directory) := by
  constructor
  · rintro (⟨hs', h⟩ | ⟨hs', hglobs, hstdout, h⟩)
    · obtain rfl := Except.ok.inj (hs.symm.trans hs')
      exact .inl h
    · obtain rfl := Except.ok.inj (hs.symm.trans hs')
      exact .inr ⟨hglobs, hstdout, h⟩
  · rintro (h | ⟨hglobs, hstdout, h⟩)
    · exact .root hs h
    · exact .destination hs hglobs hstdout h

/-- Where nothing can be selected, there is no directory to walk or a glob cannot be read. -/
theorem exits_of_select_error {e : Failure}
    (h : fs.select directory s.files s.exclude = .error e) :
    e.exitCode = 2 ∧ Misused fs directory o ∧ ¬ Refused fs directory o ∨
      e.exitCode = 3 ∧ Refused fs directory o ∧ ¬ Misused fs directory o := by
  rw [misused_iff hs, refused_iff hs]
  unfold select at h
  dsimp only at h
  unfold isDirectory
  cases hroot : fs.directory? (Selection.walkRoot directory s.files) with
  | none =>
    rw [hroot] at h
    cases h
    exact .inr ⟨rfl, .inl rfl, fun h => nomatch h.1⟩
  | some entries =>
    rw [hroot] at h
    cases hpatterns : Selection.ofPatterns s.files s.exclude with
    | ok selection =>
      rw [hpatterns] at h
      cases h
    | error e' =>
      rw [hpatterns] at h
      cases h
      obtain ⟨hexit, glob, hglob, hinvalid⟩ := Selection.exitCode_of_ofPatterns_error hpatterns
      -- nothing is refused: the directory is there, and the run does not come to the destination
      refine .inl ⟨hexit, ⟨rfl, glob, hglob, hinvalid⟩, ?_⟩
      rintro (hdirectory | ⟨hglobs, -⟩)
      · cases hdirectory
      · exact hinvalid (hglobs glob hglob)

/-- Where files have been selected, only the destination can still be refused. -/
theorem causes_of_select_ok {files : List Path}
    (h : fs.select directory s.files s.exclude = .ok files) : ¬ Misused fs directory o ∧
      (Refused fs directory o ↔
        o.toStdout = false ∧ ¬ fs.Writable (s.destinationPath directory)) := by
  obtain ⟨entries, selection, hroot, hpatterns, -⟩ := select_eq_ok_iff.mp h
  have hglobs : ∀ glob ∈ s.globs, Glob.IsValid glob := Selection.isValid_of_ofPatterns hpatterns
  rw [misused_iff hs, refused_iff hs]
  unfold isDirectory
  rw [hroot]
  constructor
  · rintro ⟨-, glob, hglob, hinvalid⟩
    exact hinvalid (hglobs glob hglob)
  · constructor
    · rintro (hdirectory | ⟨-, hrefused⟩)
      · cases hdirectory
      · exact hrefused
    · exact fun hrefused => .inr ⟨hglobs, hrefused⟩

end Causes

/-- Whether a file can be written does not depend on what it is to hold. -/
theorem FileSystem.writable_iff {fs : FileSystem} {p : Path} (content : ByteArray) :
    fs.Writable p ↔ (fs.writeWithDirectories p content).2 = .ok () := by
  constructor
  · rintro ⟨content', h⟩
    rw [← snd_writeWithDirectories_shape, snd_writeWithDirectories_shape fs p content', h]
  · exact fun h => ⟨content, h⟩

/-- Each end of a run has its code, and the cause for it. -/
theorem Ends.exits {fs : FileSystem} {directory : Path} {o : Options} {outcome : Outcome}
    (h : Ends fs directory o outcome) :
    outcome.exitCode = 2 ∧ Misused fs directory o ∧ ¬ Refused fs directory o ∨
      outcome.exitCode = 3 ∧ Refused fs directory o ∧ ¬ Misused fs directory o ∨
      outcome.exitCode = 0 ∧ ¬ Misused fs directory o ∧ ¬ Refused fs directory o := by
  cases h with
  | @unsettled e h =>
    refine .inl ⟨Settings.exitCode_of_load_error h, .settings h, ?_⟩
    rintro (⟨hs, -⟩ | ⟨hs, -⟩)
    · rw [h] at hs
      cases hs
    · rw [h] at hs
      cases hs
  | unselected hs h =>
    rcases exits_of_select_error hs h with hcause | hcause
    · exact .inl hcause
    · exact .inr (.inl hcause)
  | printed hs hfiles hstdout =>
    obtain ⟨hmisused, hrefused⟩ := causes_of_select_ok hs hfiles
    refine .inr (.inr ⟨rfl, hmisused, ?_⟩)
    rw [hrefused, hstdout]
    exact fun h => nomatch h.1
  | unwritten hs hfiles hstdout hwrite =>
    obtain ⟨hmisused, hrefused⟩ := causes_of_select_ok hs hfiles
    refine .inr (.inl ⟨rfl, hrefused.mpr ⟨hstdout, ?_⟩, hmisused⟩)
    rw [writable_iff, hwrite]
    exact nofun
  | written hs hfiles hstdout hwrite =>
    obtain ⟨hmisused, hrefused⟩ := causes_of_select_ok hs hfiles
    refine .inr (.inr ⟨rfl, hmisused, ?_⟩)
    rw [hrefused, writable_iff, hwrite]
    exact fun h => h.2 rfl

/-- No run exits with another code than these, and each of them has its cause. -/
theorem exitCode_runWith (fs : FileSystem) (directory : Path) (o : Options) :
    let code := (runWith fs directory o).exitCode
    (code = 2 ↔ Misused fs directory o) ∧ (code = 3 ↔ Refused fs directory o) ∧
      (code = 0 ↔ ¬ Misused fs directory o ∧ ¬ Refused fs directory o) := by
  intro code
  rcases (ends_runWith fs directory o).exits with ⟨hcode, hmisused, hrefused⟩ |
    ⟨hcode, hrefused, hmisused⟩ | ⟨hcode, hmisused, hrefused⟩
  all_goals
    have hcode : code = _ := hcode
    rw [hcode]
    simp only [hmisused, hrefused]
    decide

/-! ## 3. Other contents -/

section Shape

variable {fs fs' : FileSystem} (hshape : fs.shape = fs'.shape)

include hshape

theorem isDirectory_of_shape (p : Path) : fs'.isDirectory p = fs.isDirectory p := by
  have hentries : (fs'.directory? p).map Node.shapes = (fs.directory? p).map Node.shapes := by
    rw [← directory?_shape, ← hshape, directory?_shape]
  unfold isDirectory
  rw [← Option.isSome_map, hentries, Option.isSome_map]

theorem writable_of_shape (p : Path) : fs'.Writable p ↔ fs.Writable p := by
  rw [writable_iff .empty, writable_iff .empty, ← snd_writeWithDirectories_shape, ← hshape,
    snd_writeWithDirectories_shape]

theorem select_of_shape (base : Path) (pattern : String) (excludes : List String) :
    fs'.select base pattern excludes = fs.select base pattern excludes := by
  rw [← select_shape, ← hshape, select_shape]

variable {directory : Path} {o : Options}
  (hread : ∀ p, Settings.file? fs directory o.settingsPath = some p → fs'.read p = fs.read p)

include hread

theorem load_of_shape : Settings.load fs' directory o.settingsPath o.layer =
    Settings.load fs directory o.settingsPath o.layer := by
  have hisFile (p : Path) : fs'.isFile p = fs.isFile p := by
    rw [← isFile_shape, ← hshape, isFile_shape]
  apply Settings.load_congr _ hread
  unfold Settings.file?
  simp only [hisFile]

theorem misused_of_shape : Misused fs' directory o ↔ Misused fs directory o := by
  have hload := load_of_shape hshape hread
  cases hs : Settings.load fs directory o.settingsPath o.layer with
  | error e => exact iff_of_true (.settings (hload.trans hs)) (.settings hs)
  | ok s => rw [misused_iff hs, misused_iff (hload.trans hs), isDirectory_of_shape hshape]

theorem refused_of_shape : Refused fs' directory o ↔ Refused fs directory o := by
  have hload := load_of_shape hshape hread
  cases hs : Settings.load fs directory o.settingsPath o.layer with
  | error e =>
    have hnot {fs : FileSystem}
        (h : Settings.load fs directory o.settingsPath o.layer = .error e) :
        ¬ Refused fs directory o := by
      rintro (⟨hs, -⟩ | ⟨hs, -⟩) <;> cases h.symm.trans hs
    exact iff_of_false (hnot (hload.trans hs)) (hnot hs)
  | ok s =>
    rw [refused_iff hs, refused_iff (hload.trans hs), isDirectory_of_shape hshape,
      writable_of_shape hshape]

/-- Other files may be among those that cannot be read, but all are counted. -/
theorem counts_of_shape :
    (prepared fs' directory o).map (fun p => (p.1, p.2.processed + p.2.failed)) =
      (prepared fs directory o).map fun p => (p.1, p.2.processed + p.2.failed) := by
  have hload := load_of_shape hshape hread
  cases hs : Settings.load fs directory o.settingsPath o.layer with
  | error e => rw [prepared_of_load_error hs, prepared_of_load_error (hload.trans hs)]
  | ok s =>
    have hselect := select_of_shape hshape directory s.files s.exclude
    cases hfiles : fs.select directory s.files s.exclude with
    | error e =>
      rw [prepared_of_select_error hs hfiles,
        prepared_of_select_error (hload.trans hs) (hselect.trans hfiles)]
    | ok files =>
      have htotal (fs : FileSystem) := (Report.accounts_ofFiles fs s.formatter files).total
      rw [prepared_of_select_ok hs hfiles,
        prepared_of_select_ok (hload.trans hs) (hselect.trans hfiles)]
      exact congrArg (fun n => Except.ok (s, n)) ((htotal fs').trans (htotal fs).symm)

end Shape

/-- What files hold that are not the settings file makes no difference to the exit code of a run,
nor to the number of the files that it counts. -/
theorem exitCode_run {args : List String} {environment : Option String} {o : Options}
    (hargs : parse args environment = .ok o) {fs fs' : FileSystem} {directory : Path}
    (hshape : fs.shape = fs'.shape)
    (hread : ∀ p, Settings.file? fs directory o.settingsPath = some p →
      fs'.read p = fs.read p) :
    let code := (run fs directory args environment).exitCode
    (run fs' directory args environment).exitCode = code ∧
      (prepared fs' directory o).map (fun p => (p.1, p.2.processed + p.2.failed)) =
        (prepared fs directory o).map (fun p => (p.1, p.2.processed + p.2.failed)) ∧
      (code = 2 ↔ Misused fs directory o) ∧ (code = 3 ↔ Refused fs directory o) ∧
      (code = 0 ↔ ¬ Misused fs directory o ∧ ¬ Refused fs directory o) := by
  intro code
  have hcode : code = (runWith fs directory o).exitCode :=
    congrArg Outcome.exitCode (run_eq_runWith hargs fs directory)
  obtain ⟨htwo, hthree, hzero⟩ := exitCode_runWith fs directory o
  refine ⟨?_, counts_of_shape hshape hread, ?_⟩
  · -- the causes are the same, and they decide
    have hmisused := misused_of_shape hshape hread
    have hrefused := refused_of_shape hshape hread
    rw [run_eq_runWith hargs, hcode]
    rcases (ends_runWith fs' directory o).exits with ⟨hcode', h, -⟩ | ⟨hcode', h, -⟩ |
      ⟨hcode', h, h'⟩
    · rw [hcode', htwo.mpr (hmisused.mp h)]
    · rw [hcode', hthree.mpr (hrefused.mp h)]
    · rw [hcode', hzero.mpr ⟨fun hm => h (hmisused.mpr hm), fun hr => h' (hrefused.mpr hr)⟩]
  · rw [hcode]
    exact ⟨htwo, hthree, hzero⟩

/-- The same two files, of which the first holds bytes that are no text. -/
def oneGarbled : FileSystem := ⟨[("b.ts", .file .empty), ("a.ts", .file ⟨#[0xff]⟩)]⟩

theorem readText_oneGarbled : oneGarbled.readText ⟨"/a.ts"⟩ = .error .notText := by
  have hcomponents : Path.components ⟨"/a.ts"⟩ = [.root, .name "a.ts"] := by decide
  have hgarbled : String.fromUTF8? ⟨#[0xff]⟩ = none := by decide
  have hread : oneGarbled.read ⟨"/a.ts"⟩ = .ok ⟨#[0xff]⟩ := by
    unfold FileSystem.read node? target locate
    rw [hcomponents, follow_root, follow_name_file (by decide) rfl]
    rfl
  unfold readText
  simp only [hread, hgarbled]

theorem exitCode_run_oneGarbled :
    let args := ["-f", "*.ts", "--exclude", "/b.ts", "-d", "out/x.json"]
    parse args none = .ok toNewDirectory ∧ twoFiles.shape = oneGarbled.shape ∧
      Settings.file? twoFiles ⟨"/"⟩ toNewDirectory.settingsPath = none ∧
      oneGarbled.readText ⟨"/a.ts"⟩ = .error .notText ∧
      (run oneGarbled ⟨"/"⟩ args none).exitCode = 0 := by
  intro args
  have hargs : parse args none = .ok toNewDirectory := rfl
  have hfile : Settings.file? twoFiles ⟨"/"⟩ toNewDirectory.settingsPath = none := file?_twoFiles
  have hshape : twoFiles.shape = oneGarbled.shape := rfl
  have hread : ∀ p, Settings.file? twoFiles ⟨"/"⟩ toNewDirectory.settingsPath = some p →
      oneGarbled.read p = twoFiles.read p := by
    rw [hfile]
    exact fun _ => nofun
  have hexit := (exitCode_run hargs hshape hread).1
  refine ⟨hargs, hshape, hfile, readText_oneGarbled, hexit.trans ?_⟩
  rw [run_eq_runWith hargs]
  exact exitCode_toNewDirectory

end MarkupCatalog

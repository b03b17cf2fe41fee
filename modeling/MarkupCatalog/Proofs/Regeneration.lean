import MarkupCatalog.Proofs.RunOutcomes
import MarkupCatalog.Proofs.SourceReadings

/-!
# Running again

A run that has written its document finds the same settings and the same source files when it is
made again, unless the document has gone to one of these or a settings file has appeared together
with the new directories.  It then writes the same document to the same place.
-/

namespace MarkupCatalog

open FileSystem CommandLine

/-! ## 1. Files that stay -/

namespace FileSystem

variable {fs fs' : FileSystem} {p q : Path} {content : ByteArray}

theorem read_eq_ok_iff : fs.read p = .ok content ↔ p.endsAsDirectory = false ∧
    ∃ place, fs.locate true p = .ok (.present place (.file content)) := by
  unfold FileSystem.read node? target
  rw [Bool.true_or]
  cases hlocate : fs.locate true p with
  | error e => simp
  | ok t =>
    cases t with
    | absent dir name => simp
    | present place node =>
      cases node with
      | file content' => cases hend : p.endsAsDirectory <;> simp
      | link target => simp
      | directory entries => simp

/-- Two paths lead to the same place. -/
def SamePlace (fs : FileSystem) (p q : Path) : Prop :=
  ∃ t t', fs.locate true p = .ok t ∧ fs.locate true q = .ok t' ∧ t.place = t'.place

theorem SamePlace.place_eq {t t' : Target} (h : fs.SamePlace p q)
    (hp : fs.locate true p = .ok t) (hq : fs.locate true q = .ok t') : t.place = t'.place := by
  obtain ⟨u, u', hu, hu', hplace⟩ := h
  obtain rfl := Except.ok.inj (hu.symm.trans hp)
  obtain rfl := Except.ok.inj (hu'.symm.trans hq)
  exact hplace

theorem extends_writeWithDirectories (hwrite : fs.writeWithDirectories p content = (fs', .ok ())) :
    fs.Extends fs' := by
  have honly := onlyWrites_writeWithDirectories fs p content
  rw [hwrite] at honly
  intro place node hnode
  rcases honly.elsewhere place with hsame | hnew | ⟨-, hwritten⟩
  · exact hsame.kind_eq hnode
  · cases hnew.missing.symm.trans hnode
  · obtain ⟨old, rfl⟩ := hwritten.before node hnode
    exact ⟨.file content, at?_of_locate hwritten.leads, rfl⟩

/-- What is written to another place does not count. -/
theorem read_of_written (hwrite : fs.writeWithDirectories p content = (fs', .ok ()))
    (hother : ¬ fs'.SamePlace p q) {old : ByteArray} (h : fs.read q = .ok old) :
    fs'.read q = .ok old := by
  have honly := onlyWrites_writeWithDirectories fs p content
  rw [hwrite] at honly
  obtain ⟨hend, place, hleads⟩ := read_eq_ok_iff.mp h
  obtain ⟨node', hleads', -⟩ := (extends_writeWithDirectories hwrite).locate hleads
  have hold := at?_of_locate hleads
  -- where a file stood, there is no new directory, and what has been written stands elsewhere
  have hnode' : fs'.at? place = some (.file old) := by
    rcases honly.elsewhere place with hsame | hnew | ⟨-, hwritten⟩
    · exact (hsame.file_iff old).mpr hold
    · cases hnew.missing.symm.trans hold
    · exact absurd ⟨_, _, hwritten.leads, hleads', rfl⟩ hother
  obtain rfl : node' = .file old :=
    Option.some.inj ((at?_of_locate hleads').symm.trans hnode')
  exact read_eq_ok_iff.mpr ⟨hend, place, hleads'⟩

end FileSystem

/-! ## 2. Settings that stay -/

/-- The settings file that a command line asks for. -/
def CommandLine.Options.settingsFile (o : Options) (directory : Path) : Path :=
  directory.join (o.settingsPath.getD ⟨Settings.fileName⟩)

section Settings

variable {fs fs' : FileSystem} {directory p : Path} {o : Options} {content : ByteArray}
  (hwrite : fs.writeWithDirectories p content = (fs', .ok ()))
  (hother : ¬ fs'.SamePlace p (o.settingsFile directory))

theorem Settings.eq_settingsFile (h : file? fs directory o.settingsPath = some p) :
    p = o.settingsFile directory := by
  unfold CommandLine.Options.settingsFile
  unfold file? at h
  cases hnamed : o.settingsPath with
  | some named =>
    rw [hnamed] at h
    exact (Option.some.inj h).symm
  | none =>
    rw [hnamed] at h
    dsimp only at h
    split at h
    next => exact (Option.some.inj h).symm
    next => cases h

include hwrite hother

theorem Settings.file?_of_written
    (hdefault : o.settingsPath = none → fs'.isFile (o.settingsFile directory) = true →
      fs.isFile (o.settingsFile directory) = true) :
    file? fs' directory o.settingsPath = file? fs directory o.settingsPath := by
  unfold file?
  cases hnamed : o.settingsPath with
  | some named => rfl
  | none =>
    have hpath : o.settingsFile directory = directory.join ⟨fileName⟩ := by
      unfold CommandLine.Options.settingsFile
      rw [hnamed]
      rfl
    have hfile : fs'.isFile (o.settingsFile directory) = fs.isFile (o.settingsFile directory) := by
      rw [Bool.eq_iff_iff]
      refine ⟨hdefault hnamed, fun h => ?_⟩
      obtain ⟨old, hold⟩ := isFile_iff.mp h
      exact isFile_iff.mpr ⟨old, read_of_written hwrite hother hold⟩
    rw [hpath] at hfile
    simp only [hfile]

/-- Settings that have been loaded are loaded again. -/
theorem Settings.load_of_written
    (hdefault : o.settingsPath = none → fs'.isFile (o.settingsFile directory) = true →
      fs.isFile (o.settingsFile directory) = true) {s : Settings}
    (hs : load fs directory o.settingsPath o.layer = .ok s) :
    load fs' directory o.settingsPath o.layer = .ok s := by
  rw [← hs]
  apply load_congr (file?_of_written hwrite hother hdefault)
  intro q hconsulted
  obtain ⟨old, hold⟩ := read_of_load hs hconsulted
  obtain rfl := eq_settingsFile hconsulted
  rw [hold, read_of_written hwrite hother hold]

end Settings

/-! ## 3. The same run again -/

/-- The same run, made again on what it has left behind, comes to the same.  The destination must
not be a link, have the name of a source file or be the settings file; and where the settings file
of the working directory counts, it must not have appeared. -/
theorem run_again {args : List String} {environment : Option String} {o : Options}
    (hargs : parse args environment = .ok o) (hstdout : o.toStdout = false) {fs fs' : FileSystem}
    (hproper : fs.Proper) {directory : Path} {s : Settings}
    (hs : Settings.load fs directory o.settingsPath o.layer = .ok s)
    (hexit : (run fs directory args environment).exitCode = 0)
    (hleft : (run fs directory args environment).fileSystem = fs')
    (hlink : ¬ fs'.IsLink (s.destinationPath directory))
    (hdialect : (Dialect.ofPath (s.destinationPath directory)).isOk = false)
    (hother : ¬ fs'.SamePlace (s.destinationPath directory) (o.settingsFile directory))
    (hdefault : o.settingsPath = none → fs'.isFile (o.settingsFile directory) = true →
      fs.isFile (o.settingsFile directory) = true) :
    run fs' directory args environment = run fs directory args environment := by
  rw [run_eq_runWith hargs] at hexit hleft
  obtain ⟨s', files, fs'', hs', hfiles, hwrite, houtcome⟩ :=
    (ends_runWith fs directory o).eq_written hstdout hexit
  obtain rfl : s' = s := Except.ok.inj (hs'.symm.trans hs)
  rw [houtcome] at hleft
  obtain rfl : fs'' = fs' := hleft
  -- settings, selection and readings come out as before, and so does the document
  have hsources := sameSources_of_written hwrite hlink hdialect
  obtain ⟨hfiles', hreadings⟩ := select_of_sameSources hproper
    (hproper.writeWithDirectories hwrite) (extends_writeWithDirectories hwrite) hsources hfiles
  have hsettings := Settings.load_of_written hwrite hother hdefault hs
  rw [run_eq_runWith hargs, run_eq_runWith hargs, houtcome,
    runWith_of_ok (prepared_of_select_ok hsettings hfiles'),
    Report.ofFiles_congr hreadings s'.formatter,
    Report.outcome_written hstdout (writeWithDirectories_again hwrite)]

/-! ## 4. A run that can be made again, and one that cannot -/

section Example

theorem locate_output (fs : FileSystem) (content : ByteArray) (followLast : Bool) :
    (withOutput fs content).locate followLast ⟨"/out/x.json"⟩ =
      .ok (.present ["out", "x.json"] (.file content)) := by
  have hout : (withOutput fs content).at? ([] ++ [.ofString "out"]) =
      some (.directory [("x.json", .file content)]) := by
    refine (Node.at?_directory _ "out" []).trans ?_
    rw [withOutput, Node.named?_setNamed, if_pos rfl]
    rfl
  have hfile : (withOutput fs content).at? ([.ofString "out"] ++ [.ofString "x.json"]) =
      some (.file content) := (at?_below hout ["x.json"]).trans rfl
  unfold locate
  rw [components_output, follow_root, follow_name_directory (by decide) hout]
  exact follow_name_file (by decide) hfile

theorem not_isLink_output (fs : FileSystem) (content : ByteArray) :
    ¬ (withOutput fs content).IsLink ⟨"/out/x.json"⟩ := by
  rintro ⟨place, target, hlocate⟩
  rw [locate_output] at hlocate
  cases hlocate

theorem settingsFile_toNewDirectory :
    toNewDirectory.settingsFile ⟨"/"⟩ = ⟨"/.ng-html-data.json"⟩ := by decide

theorem components_settingsFile :
    Path.components ⟨"/.ng-html-data.json"⟩ = [.root, .name ".ng-html-data.json"] := by decide

theorem locate_settingsFile_twoFiles (content : ByteArray) :
    (withOutput twoFiles content).locate true ⟨"/.ng-html-data.json"⟩ =
      .ok (.absent [] ".ng-html-data.json") := by
  unfold locate
  rw [components_settingsFile, follow_root]
  exact follow_name_absent (by decide) rfl

/-- Two files, and a document in a new directory: the second run leaves it as it is. -/
theorem run_again_twoFiles :
    let args := ["-f", "*.ts", "--exclude", "/b.ts", "-d", "out/x.json"]
    let first := run twoFiles ⟨"/"⟩ args none
    let destination : Path := ⟨"/out/x.json"⟩
    let settings : Path := ⟨"/.ng-html-data.json"⟩
    parse args none = .ok toNewDirectory ∧ first.exitCode = 0 ∧
      ¬ first.fileSystem.IsLink destination ∧ (Dialect.ofPath destination).isOk = false ∧
      ¬ first.fileSystem.SamePlace destination settings ∧
      ¬ first.fileSystem.isFile settings = true ∧
      run first.fileSystem ⟨"/"⟩ args none = first := by
  intro args first destination settings
  have hargs : parse args none = .ok toNewDirectory := rfl
  obtain ⟨content, output, hrun⟩ := runWith_toNewDirectory file?_twoFiles (by decide)
  have hfirst : first = { fileSystem := withOutput twoFiles content, output } :=
    (run_eq_runWith hargs twoFiles ⟨"/"⟩).trans hrun
  have hleft : first.fileSystem = withOutput twoFiles content := by rw [hfirst]
  have hexit : first.exitCode = 0 := by
    rw [hfirst]
    rfl
  have hlink : ¬ first.fileSystem.IsLink destination := by
    rw [hleft]
    exact not_isLink_output twoFiles content
  have hdialect : (Dialect.ofPath destination).isOk = false := by decide
  have hother : ¬ first.fileSystem.SamePlace destination settings := by
    rw [hleft]
    intro hsame
    have hnames : (["out", "x.json"] : Place) = [".ng-html-data.json"] :=
      hsame.place_eq (locate_output _ _ true) (locate_settingsFile_twoFiles content)
    exact absurd hnames (by decide)
  have hmissing : ¬ first.fileSystem.isFile settings = true := by
    rw [hleft, isFile_iff]
    rintro ⟨old, hold⟩
    obtain ⟨-, place, hleads⟩ := read_eq_ok_iff.mp hold
    rw [locate_settingsFile_twoFiles] at hleads
    cases hleads
  refine ⟨hargs, hexit, hlink, hdialect, hother, hmissing, ?_⟩
  have hdestination : destination = _ := destinationPath_toNewDirectory.symm
  rw [hdestination] at hlink hdialect hother
  exact run_again hargs rfl proper_twoFiles load_toNewDirectory hexit rfl hlink hdialect hother
    fun _ hfile => absurd hfile hmissing

/-- The settings file of the working directory is a link by way of a directory that is missing. -/
def lateSettings : FileSystem :=
  ⟨[(".ng-html-data.json", .link "out/../settings.json"), ("settings.json", .file .empty)]⟩

theorem proper_lateSettings : lateSettings.Proper := by
  have hname : IsEntryName "settings.json" := ⟨by decide, by decide, by decide, by decide⟩
  have hname' : IsEntryName ".ng-html-data.json" := ⟨by decide, by decide, by decide, by decide⟩
  exact (Node.Proper.nil.cons hname (by decide) (.file _)).cons hname' (by decide) (.link _)

theorem components_link :
    Path.components ⟨"out/../settings.json"⟩ = [.name "out", .up, .name "settings.json"] := by
  decide

theorem locate_lateSettings :
    lateSettings.locate true ⟨"/.ng-html-data.json"⟩ = .error .notFound := by
  have hlink : lateSettings.at? ([] ++ [.ofString ".ng-html-data.json"]) =
      some (.link "out/../settings.json") := rfl
  unfold locate
  rw [components_settingsFile, follow_root, maxLinks,
    follow_name_link (by decide) hlink (by decide) (by decide), components_link]
  exact follow_name_missing (by decide) rfl

/-- With the directory in place, the link leads to the settings. -/
theorem locate_lateSettings_output (content : ByteArray) :
    (withOutput lateSettings content).locate true ⟨"/.ng-html-data.json"⟩ =
      .ok (.present ["settings.json"] (.file .empty)) := by
  have hlink : (withOutput lateSettings content).at? ([] ++ [.ofString ".ng-html-data.json"]) =
      some (.link "out/../settings.json") := rfl
  have hout : (withOutput lateSettings content).at? ([] ++ [.ofString "out"]) =
      some (.directory [("x.json", .file content)]) := rfl
  unfold locate
  rw [components_settingsFile, follow_root, maxLinks,
    follow_name_link (by decide) hlink (by decide) (by decide), components_link, List.cons_append,
    follow_name_directory (by decide) hout, List.cons_append, follow_up]
  exact follow_name_file (by decide) rfl

theorem file?_lateSettings : Settings.file? lateSettings ⟨"/"⟩ none = none := by
  have hpath : Path.join ⟨"/"⟩ ⟨Settings.fileName⟩ = ⟨"/.ng-html-data.json"⟩ := by decide
  have hfile : lateSettings.isFile ⟨"/.ng-html-data.json"⟩ = false := by
    rw [Bool.eq_false_iff, Ne, isFile_iff]
    rintro ⟨content, hread⟩
    obtain ⟨-, place, hleads⟩ := read_eq_ok_iff.mp hread
    rw [locate_lateSettings] at hleads
    cases hleads
  unfold Settings.file?
  simp only [hpath, hfile]
  rfl

/-- The settings file is empty, which is no settings. -/
theorem load_lateSettings_output (content : ByteArray) :
    ∃ message, Settings.load (withOutput lateSettings content) ⟨"/"⟩ toNewDirectory.settingsPath
      toNewDirectory.layer = .error (.badSettings "/.ng-html-data.json" message) := by
  have hpath : Path.join ⟨"/"⟩ ⟨Settings.fileName⟩ = ⟨"/.ng-html-data.json"⟩ := by decide
  have hread : (withOutput lateSettings content).read ⟨"/.ng-html-data.json"⟩ = .ok "".toUTF8 :=
    read_eq_ok_iff.mpr ⟨by decide, _, locate_lateSettings_output content⟩
  have hfile : Settings.file? (withOutput lateSettings content) ⟨"/"⟩
      toNewDirectory.settingsPath = some ⟨"/.ng-html-data.json"⟩ := by
    show Settings.file? _ _ none = _
    unfold Settings.file?
    simp only [hpath, isFile_iff.mpr ⟨_, hread⟩, if_true]
  unfold Settings.load
  rw [hfile]
  dsimp only
  unfold Settings.Layer.ofFile
  rw [readText_of_read hread]
  exact ⟨_, rfl⟩

/-- A second run that fails, because the first one has made way for a settings file. -/
theorem run_again_lateSettings_fails :
    let args := ["-f", "*.ts", "--exclude", "/b.ts", "-d", "out/x.json"]
    let first := run lateSettings ⟨"/"⟩ args none
    let destination : Path := ⟨"/out/x.json"⟩
    let settings : Path := ⟨"/.ng-html-data.json"⟩
    lateSettings.Proper ∧ parse args none = .ok toNewDirectory ∧
      toNewDirectory.toStdout = false ∧ toNewDirectory.settingsFile ⟨"/"⟩ = settings ∧
      (∃ s, Settings.load lateSettings ⟨"/"⟩ toNewDirectory.settingsPath toNewDirectory.layer =
        .ok s ∧ s.destinationPath ⟨"/"⟩ = destination) ∧
      first.exitCode = 0 ∧ (Dialect.ofPath destination).isOk = false ∧
      (¬ lateSettings.IsLink destination ∧ ¬ lateSettings.SamePlace destination settings) ∧
      (¬ first.fileSystem.IsLink destination ∧
        ¬ first.fileSystem.SamePlace destination settings) ∧
      (run first.fileSystem ⟨"/"⟩ args none).exitCode = 2 := by
  intro args first destination settings
  have hargs : parse args none = .ok toNewDirectory := rfl
  obtain ⟨content, output, hrun⟩ := runWith_toNewDirectory file?_lateSettings (by decide)
  have hfirst : first = { fileSystem := withOutput lateSettings content, output } :=
    (run_eq_runWith hargs lateSettings ⟨"/"⟩).trans hrun
  have hmissing (followLast : Bool) :
      lateSettings.locate followLast ⟨"/out/x.json"⟩ = .error .notFound := by
    unfold locate
    rw [components_output, follow_root]
    exact follow_name_missing (by decide) rfl
  refine ⟨proper_lateSettings, hargs, rfl, settingsFile_toNewDirectory,
    ⟨_, load_of_no_file file?_lateSettings, destinationPath_toNewDirectory⟩, ?exits, by decide,
    ⟨?linkBefore, ?placeBefore⟩, ⟨?linkAfter, ?placeAfter⟩, ?fails⟩
  case exits =>
    rw [hfirst]
    rfl
  case linkBefore =>
    rintro ⟨place, target, hlocate⟩
    rw [hmissing] at hlocate
    cases hlocate
  case placeBefore =>
    rintro ⟨t, t', ht, -⟩
    rw [hmissing] at ht
    cases ht
  case linkAfter =>
    rw [hfirst]
    exact not_isLink_output lateSettings content
  case placeAfter =>
    rw [hfirst]
    intro hsame
    have hnames : (["out", "x.json"] : Place) = ["settings.json"] :=
      hsame.place_eq (locate_output _ _ true) (locate_lateSettings_output content)
    exact absurd hnames (by decide)
  case fails =>
    obtain ⟨message, hload⟩ := load_lateSettings_output content
    rw [hfirst, run_eq_runWith hargs, runWith_of_error (prepared_of_load_error hload)]
    rfl

end Example

end MarkupCatalog

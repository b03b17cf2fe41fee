import MarkupCatalog.Proofs.FileChanges
import MarkupCatalog.Proofs.SelectedFiles
import MarkupCatalog.Run

/-!
# What a run changes

A run changes nothing but its destination.  If it prints the document, or if it fails before there
is one, the file system stays as it is.  Otherwise the directories above the destination that were
missing may be new, and the destination holds the document if it could be written.
-/

namespace MarkupCatalog

open FileSystem

/-! ## 1. Runs that write nothing -/

/-- Why a run does not come to write its destination: it prints the document, or there is none. -/
inductive WritesNothing (fs : FileSystem) (directory : Path) (o : CommandLine.Options) : Prop
  | stdout (h : o.toStdout = true)
  | settings {e : Failure} (h : Settings.load fs directory o.settingsPath o.layer = .error e)
  | root {s : Settings} (hs : Settings.load fs directory o.settingsPath o.layer = .ok s)
    (h : fs.directory? (Selection.walkRoot directory s.files) = none)
  | pattern {s : Settings} (hs : Settings.load fs directory o.settingsPath o.layer = .ok s)
    {e : Failure} (h : Selection.ofPatterns s.files s.exclude = .error e)

section WritesNothing

variable {fs : FileSystem} {directory : Path} {o : CommandLine.Options} {s : Settings}
  (hs : Settings.load fs directory o.settingsPath o.layer = .ok s)

include hs

theorem WritesNothing.of_select_error {e : Failure}
    (h : fs.select directory s.files s.exclude = .error e) : WritesNothing fs directory o := by
  cases hroot : fs.directory? (Selection.walkRoot directory s.files) with
  | none => exact .root hs hroot
  | some entries =>
    cases hpattern : Selection.ofPatterns s.files s.exclude with
    | error e => exact .pattern hs hpattern
    | ok selection =>
      have hok := select_eq_ok_iff.mpr ⟨entries, selection, hroot, hpattern, rfl⟩
      rw [hok] at h
      cases h

theorem not_writesNothing {files : List Path}
    (hfiles : fs.select directory s.files s.exclude = .ok files) (hstdout : o.toStdout = false) :
    ¬ WritesNothing fs directory o := by
  obtain ⟨entries, selection, hroot, hpattern, -⟩ := select_eq_ok_iff.mp hfiles
  intro h
  cases h with
  | stdout h =>
    rw [hstdout] at h
    cases h
  | settings h =>
    rw [hs] at h
    cases h
  | root hs' h =>
    obtain rfl := Except.ok.inj (hs.symm.trans hs')
    rw [hroot] at h
    cases h
  | pattern hs' h =>
    obtain rfl := Except.ok.inj (hs.symm.trans hs')
    rw [hpattern] at h
    cases h

end WritesNothing

/-- What a run finds out before it prints or writes anything. -/
def prepared (fs : FileSystem) (directory : Path) (o : CommandLine.Options) :
    Except Failure (Settings × Report) := do
  let settings ← Settings.load fs directory o.settingsPath o.layer
  let (_, report) ← Report.ofSettings fs directory settings
  return (settings, report)

section Prepared

variable {fs : FileSystem} {directory : Path} {o : CommandLine.Options} {s : Settings}

theorem prepared_of_load_error {e : Failure}
    (h : Settings.load fs directory o.settingsPath o.layer = .error e) :
    prepared fs directory o = .error e := by
  unfold prepared
  rw [bind_of_error h]

variable (hs : Settings.load fs directory o.settingsPath o.layer = .ok s)

include hs

theorem prepared_of_select_error {e : Failure}
    (h : fs.select directory s.files s.exclude = .error e) :
    prepared fs directory o = .error e := by
  have hreport : Report.ofSettings fs directory s = .error e := by
    rw [Report.ofSettings, h]
    rfl
  unfold prepared
  rw [bind_of_ok hs, bind_of_error hreport]

theorem prepared_of_select_ok {files : List Path}
    (h : fs.select directory s.files s.exclude = .ok files) :
    prepared fs directory o = .ok (s, Report.ofFiles fs s.formatter files) := by
  have hreport : Report.ofSettings fs directory s =
      .ok (files, Report.ofFiles fs s.formatter files) := by
    rw [Report.ofSettings, h]
    rfl
  unfold prepared
  rw [bind_of_ok hs, bind_of_ok hreport]
  rfl

end Prepared

/-! ## 2. What is left behind -/

/-- What a run that is prepared leaves behind. -/
def Report.outcome (fs : FileSystem) (directory : Path) (o : CommandLine.Options) (s : Settings)
    (report : Report) : Outcome :=
  if o.toStdout then { fileSystem := fs, output := report.document.text ++ "\n" }
  else
    let destination := s.destinationPath directory
    match fs.writeDocument destination report.document with
    | (fs, .ok ()) => { fileSystem := fs, output := report.summary destination ++ "\n" }
    | (fs, .error e) => { fileSystem := fs, failure := some e }

section RunWith

variable {fs : FileSystem} {directory : Path} {o : CommandLine.Options}

theorem runWith_of_error {e : Failure} (h : prepared fs directory o = .error e) :
    runWith fs directory o = { fileSystem := fs, failure := some e } := by
  unfold prepared at h
  unfold runWith
  simp only [h]

theorem runWith_of_ok {s : Settings} {report : Report}
    (h : prepared fs directory o = .ok (s, report)) :
    runWith fs directory o = report.outcome fs directory o s := by
  unfold prepared at h
  unfold runWith
  simp only [h]
  rfl

end RunWith

theorem Report.outcome_stdout {o : CommandLine.Options} (h : o.toStdout = true) (fs : FileSystem)
    (directory : Path) (s : Settings) (report : Report) :
    (report.outcome fs directory o s).fileSystem = fs := by
  unfold outcome
  rw [if_pos h]

/-- The document is what is written to the destination. -/
theorem Report.onlyWrites_outcome {o : CommandLine.Options} (h : o.toStdout = false)
    (fs : FileSystem) (directory : Path) (s : Settings) (report : Report) :
    fs.OnlyWrites (report.outcome fs directory o s).fileSystem (s.destinationPath directory)
      report.document.text.toUTF8 ((report.outcome fs directory o s).failure = none) := by
  have hwrites := onlyWrites_writeWithDirectories fs (s.destinationPath directory)
    report.document.text.toUTF8
  unfold outcome
  rw [if_neg (by rw [h]; exact Bool.false_ne_true)]
  dsimp only
  rw [writeDocument_eq]
  generalize fs.writeWithDirectories _ _ = written at hwrites ⊢
  obtain ⟨fs', r⟩ := written
  cases r with
  | error e => exact hwrites.congr ⟨nofun, nofun⟩
  | ok _ => exact hwrites.congr ⟨fun _ => rfl, fun _ => rfl⟩

/-- A run changes nothing but its destination. -/
theorem run_changes_destination {args : List String} {environment : Option String}
    {o : CommandLine.Options} (hargs : CommandLine.parse args environment = .ok o)
    (fs : FileSystem) (directory : Path) :
    let outcome := run fs directory args environment
    (WritesNothing fs directory o → outcome.fileSystem = fs) ∧
      (¬ WritesNothing fs directory o → ∃ s files,
        Settings.load fs directory o.settingsPath o.layer = .ok s ∧
        fs.select directory s.files s.exclude = .ok files ∧
        fs.OnlyWrites outcome.fileSystem (s.destinationPath directory)
          (Report.ofFiles fs s.formatter files).document.text.toUTF8 (outcome.failure = none)) := by
  have hrun : run fs directory args environment = runWith fs directory o := by
    unfold run
    rw [hargs]
  rw [hrun]
  -- each step of the run that fails is a cause of `WritesNothing`, and so is printing
  cases hs : Settings.load fs directory o.settingsPath o.layer with
  | error e =>
    rw [runWith_of_error (prepared_of_load_error hs)]
    exact ⟨fun _ => rfl, fun h => absurd (.settings hs) h⟩
  | ok s =>
    cases hfiles : fs.select directory s.files s.exclude with
    | error e =>
      rw [runWith_of_error (prepared_of_select_error hs hfiles)]
      exact ⟨fun _ => rfl, fun h => absurd (.of_select_error hs hfiles) h⟩
    | ok files =>
      rw [runWith_of_ok (prepared_of_select_ok hs hfiles)]
      by_cases hstdout : o.toStdout = true
      · refine ⟨fun _ => Report.outcome_stdout hstdout fs directory s _, fun h => ?_⟩
        exact absurd (.stdout hstdout) h
      · have hdestination := Bool.eq_false_iff.mpr hstdout
        refine ⟨fun h => absurd h (not_writesNothing hs hfiles hdestination), fun _ => ?_⟩
        exact ⟨s, files, rfl, hfiles, Report.onlyWrites_outcome hdestination fs directory s _⟩

/-! ## 3. An example -/

section Example

/-- What `-f *.ts --exclude /b.ts -d out/x.json` asks for. -/
def toNewDirectory : CommandLine.Options where
  files := some "*.ts"
  exclude := ["/b.ts"]
  destination := some "out/x.json"

theorem file?_twoFiles : Settings.file? twoFiles ⟨"/"⟩ none = none := by
  have hpath : Path.join ⟨"/"⟩ ⟨Settings.fileName⟩ = ⟨"/.ng-html-data.json"⟩ := by decide
  have hcomponents : Path.components ⟨"/.ng-html-data.json"⟩ =
      [.root, .name ".ng-html-data.json"] := by decide
  have hfile : twoFiles.isFile ⟨"/.ng-html-data.json"⟩ = false := by
    unfold isFile node? target locate
    rw [hcomponents, follow_root, follow_name_absent (by decide) rfl]
    rfl
  unfold Settings.file?
  simp only [hpath, hfile]
  rfl

theorem load_of_no_file {fs : FileSystem} (h : Settings.file? fs ⟨"/"⟩ none = none) :
    Settings.load fs ⟨"/"⟩ toNewDirectory.settingsPath toNewDirectory.layer =
      .ok { destination := "out/x.json", files := "*.ts", exclude := ["/b.ts"] } := by
  have hfile : Settings.file? fs ⟨"/"⟩ toNewDirectory.settingsPath = none := h
  unfold Settings.load
  rw [hfile]
  dsimp only
  decide

theorem load_toNewDirectory :
    Settings.load twoFiles ⟨"/"⟩ toNewDirectory.settingsPath toNewDirectory.layer =
      .ok { destination := "out/x.json", files := "*.ts", exclude := ["/b.ts"] } :=
  load_of_no_file file?_twoFiles

theorem destinationPath_toNewDirectory : Settings.destinationPath
    { destination := "out/x.json", files := "*.ts", exclude := ["/b.ts"] } ⟨"/"⟩ =
      ⟨"/out/x.json"⟩ := by decide

/-- The file system with the file `out/x.json` in a directory of its own. -/
def withOutput (fs : FileSystem) (content : ByteArray) : FileSystem :=
  ⟨Node.setNamed "out" (.directory [("x.json", .file content)]) fs.entries⟩

theorem components_output :
    Path.components ⟨"/out/x.json"⟩ = [.root, .name "out", .name "x.json"] := by decide

theorem writeWithDirectories_output {fs : FileSystem}
    (hmissing : Node.named? "out" fs.entries = none) (content : ByteArray) :
    fs.writeWithDirectories ⟨"/out/x.json"⟩ content = (withOutput fs content, .ok ()) := by
  -- between the two steps: the directory is there, and holds nothing
  let between : FileSystem := ⟨Node.setNamed "out" (.directory []) fs.entries⟩
  have hmake : fs.ensureDirectories [.name "out", .root] = (between, .ok ()) := by
    have hat : fs.at? ([] ++ [.ofString "out"]) = none := by
      refine (Node.at?_directory fs.entries "out" []).trans ?_
      rw [hmissing]
      rfl
    have hfollow : fs.follow false maxLinks [] [.root, .name "out"] =
        .ok (.absent [] "out") := by
      rw [follow_root]
      exact follow_name_absent (by decide) hat
    unfold ensureDirectories makeDirectory
    simp only [List.reverse_cons, List.reverse_nil, List.nil_append, List.cons_append, hfollow]
    rfl
  have hout : between.at? ([] ++ [.ofString "out"]) = some (.directory []) := by
    refine (Node.at?_directory _ "out" []).trans ?_
    rw [Node.named?_setNamed, if_pos rfl]
    rfl
  have hleads : between.follow true maxLinks [] [.root, .name "out", .name "x.json"] =
      .ok (.absent ["out"] "x.json") := by
    have hfile : between.at? ([.ofString "out"] ++ [.ofString "x.json"]) = none := by
      refine (Node.at?_append _ ["out"] ["x.json"]).trans ?_
      exact (congrArg (Option.bind · _) hout).trans rfl
    rw [follow_root, follow_name_directory (by decide) hout]
    exact follow_name_absent (by decide) hfile
  have hset : between.set ["out", "x.json"] (.file content) = withOutput fs content := by
    have hchild : Node.named? "out" between.entries = some (.directory []) := by
      rw [Node.named?_setNamed, if_pos rfl]
    unfold FileSystem.set
    rw [Node.set_cons (.file content) hchild (List.cons_ne_nil _ _), Node.set_singleton,
      Node.setNamed_setNamed]
    rfl
  unfold writeWithDirectories
  rw [components_output]
  have habove : [Path.Component.root, .name "out", .name "x.json"].reverse.tail =
      [.name "out", .root] := rfl
  rw [habove, hmake]
  dsimp only
  unfold write locate
  rw [components_output, hleads]
  exact congrArg (·, _) hset

theorem outcome_toNewDirectory (report : Report) :
    (report.outcome twoFiles ⟨"/"⟩ toNewDirectory
      { destination := "out/x.json", files := "*.ts", exclude := ["/b.ts"] }).failure = none := by
  have hmissing : Node.named? "out" twoFiles.entries = none := by decide
  unfold Report.outcome
  rw [destinationPath_toNewDirectory, if_neg (by decide)]
  dsimp only
  rw [writeDocument_eq, writeWithDirectories_output hmissing]

/-- The document goes to a directory that is new; with another switch it is printed. -/
theorem run_changes_destination_twoFiles :
    let args := ["-f", "*.ts", "--exclude", "/b.ts", "-d", "out/x.json"]
    let printed := run twoFiles ⟨"/"⟩ ("--stdout" :: args) none
    let written := run twoFiles ⟨"/"⟩ args none
    printed.fileSystem = twoFiles ∧ written.failure = none ∧
      ∃ report : Report, twoFiles.OnlyWrites written.fileSystem ⟨"/out/x.json"⟩
        report.document.text.toUTF8 (written.failure = none) := by
  intro args printed written
  have hprinted : CommandLine.parse ("--stdout" :: args) none =
      .ok { toNewDirectory with toStdout := true } := rfl
  have hwritten : CommandLine.parse args none = .ok toNewDirectory := rfl
  have hrun : written = runWith twoFiles ⟨"/"⟩ toNewDirectory := rfl
  have hprepared := prepared_of_select_ok load_toNewDirectory select_twoFiles
  refine ⟨(run_changes_destination hprinted twoFiles ⟨"/"⟩).1 (.stdout rfl), ?_, ?_⟩
  · rw [hrun, runWith_of_ok hprepared]
    exact outcome_toNewDirectory _
  · have hdocument := not_writesNothing load_toNewDirectory select_twoFiles rfl
    obtain ⟨s, files, hs, -, hwrites⟩ :=
      (run_changes_destination hwritten twoFiles ⟨"/"⟩).2 hdocument
    obtain rfl := Except.ok.inj (load_toNewDirectory.symm.trans hs)
    have hdestination : Settings.destinationPath
        { destination := "out/x.json", files := "*.ts", exclude := ["/b.ts"] } ⟨"/"⟩ =
          ⟨"/out/x.json"⟩ := by decide
    rw [hdestination] at hwrites
    exact ⟨_, hwrites⟩

end Example

end MarkupCatalog

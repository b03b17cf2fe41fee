import MarkupCatalog.Proofs.CommandLines
import MarkupCatalog.Proofs.DocumentTexts
import MarkupCatalog.Proofs.Reports
import MarkupCatalog.Proofs.RunEffects
import MarkupCatalog.Proofs.WrittenFiles

/-!
# How runs end

The ways in which a run with an accepted command line ends, each with what it leaves behind.  A run
that prints the document prints the text that is written without the switch, and the message about a
document that has been written counts what is in that text.
-/

namespace MarkupCatalog

open FileSystem CommandLine

/-! ## 1. The ends of a run -/

/-- A run fails where its settings, its selection or its destination do; else it prints the document
or writes it. -/
inductive Ends (fs : FileSystem) (directory : Path) (o : Options) : Outcome → Prop
  | unsettled {e : Failure} (h : Settings.load fs directory o.settingsPath o.layer = .error e) :
      Ends fs directory o { fileSystem := fs, failure := some e }
  | unselected {s : Settings} {e : Failure}
      (hs : Settings.load fs directory o.settingsPath o.layer = .ok s)
      (h : fs.select directory s.files s.exclude = .error e) :
      Ends fs directory o { fileSystem := fs, failure := some e }
  | printed {s : Settings} {files : List Path}
      (hs : Settings.load fs directory o.settingsPath o.layer = .ok s)
      (hfiles : fs.select directory s.files s.exclude = .ok files) (hstdout : o.toStdout = true) :
      Ends fs directory o
        { fileSystem := fs, output := (Report.ofFiles fs s.formatter files).document.text ++ "\n" }
  | unwritten {s : Settings} {files : List Path} {fs' : FileSystem} {e : FileFault}
      (hs : Settings.load fs directory o.settingsPath o.layer = .ok s)
      (hfiles : fs.select directory s.files s.exclude = .ok files) (hstdout : o.toStdout = false)
      (hwrite : fs.writeWithDirectories (s.destinationPath directory)
        (Report.ofFiles fs s.formatter files).document.text.toUTF8 = (fs', .error e)) :
      Ends fs directory o { fileSystem := fs', failure := some (.fileAccess e) }
  | written {s : Settings} {files : List Path} {fs' : FileSystem}
      (hs : Settings.load fs directory o.settingsPath o.layer = .ok s)
      (hfiles : fs.select directory s.files s.exclude = .ok files) (hstdout : o.toStdout = false)
      (hwrite : fs.writeWithDirectories (s.destinationPath directory)
        (Report.ofFiles fs s.formatter files).document.text.toUTF8 = (fs', .ok ())) :
      Ends fs directory o
        { fileSystem := fs'
          output := (Report.ofFiles fs s.formatter files).summary (s.destinationPath directory)
            ++ "\n" }

theorem run_eq_runWith {args : List String} {environment : Option String} {o : Options}
    (hargs : parse args environment = .ok o) (fs : FileSystem) (directory : Path) :
    run fs directory args environment = runWith fs directory o := by
  unfold run
  rw [hargs]

section Ends

variable {fs fs' : FileSystem} {directory : Path} {o : Options} {s : Settings} {report : Report}

theorem Report.outcome_printed (hstdout : o.toStdout = true) :
    report.outcome fs directory o s =
      { fileSystem := fs, output := report.document.text ++ "\n" } :=
  if_pos hstdout

theorem Report.outcome_written (hstdout : o.toStdout = false)
    (hwrite : fs.writeWithDirectories (s.destinationPath directory) report.document.text.toUTF8 =
      (fs', .ok ())) :
    report.outcome fs directory o s =
      { fileSystem := fs', output := report.summary (s.destinationPath directory) ++ "\n" } := by
  unfold outcome
  rw [if_neg (by rw [hstdout]; exact Bool.false_ne_true)]
  dsimp only
  rw [writeDocument_eq, hwrite]

theorem Report.outcome_unwritten {e : FileFault} (hstdout : o.toStdout = false)
    (hwrite : fs.writeWithDirectories (s.destinationPath directory) report.document.text.toUTF8 =
      (fs', .error e)) :
    report.outcome fs directory o s = { fileSystem := fs', failure := some (.fileAccess e) } := by
  unfold outcome
  rw [if_neg (by rw [hstdout]; exact Bool.false_ne_true)]
  dsimp only
  rw [writeDocument_eq, hwrite]

theorem ends_runWith (fs : FileSystem) (directory : Path) (o : Options) :
    Ends fs directory o (runWith fs directory o) := by
  cases hs : Settings.load fs directory o.settingsPath o.layer with
  | error e =>
    rw [runWith_of_error (prepared_of_load_error hs)]
    exact .unsettled hs
  | ok s =>
    cases hfiles : fs.select directory s.files s.exclude with
    | error e =>
      rw [runWith_of_error (prepared_of_select_error hs hfiles)]
      exact .unselected hs hfiles
    | ok files =>
      rw [runWith_of_ok (prepared_of_select_ok hs hfiles)]
      cases hstdout : o.toStdout with
      | true =>
        rw [Report.outcome_printed hstdout]
        exact .printed hs hfiles hstdout
      | false =>
        cases hwrite : fs.writeWithDirectories (s.destinationPath directory)
            (Report.ofFiles fs s.formatter files).document.text.toUTF8 with
        | mk fs' r =>
          cases r with
          | error e =>
            rw [Report.outcome_unwritten hstdout hwrite]
            exact .unwritten hs hfiles hstdout hwrite
          | ok _ =>
            rw [Report.outcome_written hstdout hwrite]
            exact .written hs hfiles hstdout hwrite

end Ends

theorem Failure.exitCode_ne_zero (e : Failure) : e.exitCode ≠ 0 := by
  cases e <;> exact nofun

section Succeeds

variable {fs : FileSystem} {directory : Path} {o : Options} {outcome : Outcome}

theorem Ends.eq_written (h : Ends fs directory o outcome) (hstdout : o.toStdout = false)
    (hexit : outcome.exitCode = 0) :
    ∃ s files fs', Settings.load fs directory o.settingsPath o.layer = .ok s ∧
      fs.select directory s.files s.exclude = .ok files ∧
      fs.writeWithDirectories (s.destinationPath directory)
        (Report.ofFiles fs s.formatter files).document.text.toUTF8 = (fs', .ok ()) ∧
      outcome =
        { fileSystem := fs'
          output := (Report.ofFiles fs s.formatter files).summary (s.destinationPath directory)
            ++ "\n" } := by
  cases h with
  | unsettled | unselected => exact absurd hexit (Failure.exitCode_ne_zero _)
  | @unwritten _ _ _ e => exact absurd hexit (Failure.exitCode_ne_zero (.fileAccess e))
  | printed _ _ hprinted =>
    rw [hstdout] at hprinted
    cases hprinted
  | @written s files fs' hs hfiles _ hwrite => exact ⟨s, files, fs', hs, hfiles, hwrite, rfl⟩

/-- With the switch, the run does not come to the destination. -/
theorem runWith_printing {s : Settings} {files : List Path}
    (hs : Settings.load fs directory o.settingsPath o.layer = .ok s)
    (hfiles : fs.select directory s.files s.exclude = .ok files) :
    runWith fs directory o.printing =
      { fileSystem := fs
        output := (Report.ofFiles fs s.formatter files).document.text ++ "\n" } := by
  have hs' : Settings.load fs directory o.printing.settingsPath o.printing.layer = .ok s := hs
  rw [runWith_of_ok (prepared_of_select_ok hs' hfiles), Report.outcome_printed rfl]

end Succeeds

/-! ## 2. Settings -/

section Load

variable {fs fs' : FileSystem} {directory : Path} {named : Option Path}

/-- Settings depend on the settings file alone. -/
theorem Settings.load_congr (hfile : file? fs' directory named = file? fs directory named)
    (hread : ∀ p, file? fs directory named = some p → fs'.read p = fs.read p)
    (overrides : Layer) :
    load fs' directory named overrides = load fs directory named overrides := by
  unfold load
  rw [hfile]
  cases hconsulted : file? fs directory named with
  | none => rfl
  | some p =>
    dsimp only
    unfold Layer.ofFile readText
    rw [hread p hconsulted]

theorem Settings.read_of_load {overrides : Layer} {s : Settings}
    (h : load fs directory named overrides = .ok s) {p : Path}
    (hconsulted : file? fs directory named = some p) : ∃ content, fs.read p = .ok content := by
  cases hread : fs.read p with
  | ok content => exact ⟨content, rfl⟩
  | error e =>
    unfold load at h
    rw [hconsulted] at h
    dsimp only at h
    unfold Layer.ofFile readText at h
    rw [hread] at h
    cases h

end Load

/-! ## 3. The document that is printed -/

/-- The switch that asks for the document has been put among the arguments. -/
inductive AddsStdout : List String → List String → Prop
  | insert (before after : List String) :
      AddsStdout (before ++ after) (before ++ "--stdout" :: after)

theorem AddsStdout.parse {args args' : List String} (h : AddsStdout args args')
    {environment : Option String} {o o' : Options} (hargs : parse args environment = .ok o)
    (hstdout : o.toStdout = false) (hargs' : parse args' environment = .ok o') :
    o' = o.printing := by
  obtain ⟨before, after⟩ := h
  exact parse_insert_stdout hargs hstdout hargs'

/-- A document that is written, with the message about it, and the same document printed. -/
theorem run_prints_written {args : List String} {environment : Option String} {o : Options}
    (hargs : parse args environment = .ok o) (hstdout : o.toStdout = false) {fs : FileSystem}
    {directory : Path} (hexit : (run fs directory args environment).exitCode = 0) :
    let written := run fs directory args environment
    ∃ s files text document,
      Settings.load fs directory o.settingsPath o.layer = .ok s ∧
      fs.select directory s.files s.exclude = .ok files ∧
      written.fileSystem.readText (s.destinationPath directory) = .ok text ∧
      Document.ofText text = .ok document ∧
      written.output = "Wrote " ++ toString document.tags.length ++ " tags and " ++
        toString document.globalAttributes.length ++ " global attributes from " ++
        toString (files.countP fun p => (Catalog.ofFile fs s.formatter p).isOk) ++ " files to " ++
        (s.destinationPath directory).text ++ "\n" ∧
      (∃ o', parse ("--stdout" :: args) environment = .ok o') ∧
      ∀ args' o', AddsStdout args args' → parse args' environment = .ok o' →
        let printed := run fs directory args' environment
        printed.exitCode = 0 ∧ printed.output = text ++ "\n" ∧ printed.fileSystem = fs := by
  rw [run_eq_runWith hargs] at hexit ⊢
  intro written
  obtain ⟨s, files, fs', hs, hfiles, hwrite, houtcome⟩ :=
    (ends_runWith fs directory o).eq_written hstdout hexit
  have haccounts := Report.accounts_ofFiles fs s.formatter files
  have hversion : (Report.ofFiles fs s.formatter files).document.version =
      Document.currentVersion := by
    rw [haccounts.document]
    rfl
  refine ⟨s, files, _, _, hs, hfiles, ?_, Document.ofText_text hversion, ?_, ?_, ?_⟩
  · show (runWith fs directory o).fileSystem.readText _ = _
    rw [houtcome]
    exact readText_of_read (read_writeWithDirectories hwrite)
  · show (runWith fs directory o).output = _
    rw [houtcome, ← haccounts.processed]
    rfl
  · exact ⟨o.printing, parse_cons_stdout hargs hstdout⟩
  · intro args' o' hadds hargs'
    obtain rfl := hadds.parse hargs hstdout hargs'
    rw [run_eq_runWith hargs', runWith_printing hs hfiles]
    exact ⟨rfl, rfl, rfl⟩

theorem runWith_toNewDirectory {fs : FileSystem} (hfile : Settings.file? fs ⟨"/"⟩ none = none)
    (hmissing : Node.named? "out" fs.entries = none) :
    ∃ content output, runWith fs ⟨"/"⟩ toNewDirectory =
      { fileSystem := withOutput fs content, output } := by
  have hwrite (content : ByteArray) : fs.writeWithDirectories (Settings.destinationPath
      { destination := "out/x.json", files := "*.ts", exclude := ["/b.ts"] } ⟨"/"⟩) content =
        (withOutput fs content, .ok ()) := by
    rw [destinationPath_toNewDirectory]
    exact writeWithDirectories_output hmissing content
  rw [runWith_of_ok (prepared_of_select_ok (load_of_no_file hfile) (select_root fs)),
    Report.outcome_written rfl (hwrite _)]
  exact ⟨_, _, rfl⟩

theorem exitCode_toNewDirectory : (runWith twoFiles ⟨"/"⟩ toNewDirectory).exitCode = 0 := by
  obtain ⟨content, output, hrun⟩ := runWith_toNewDirectory file?_twoFiles (by decide)
  rw [hrun]
  rfl

/-- The document of two files, in a directory that is new, and printed from the end of the
arguments. -/
theorem run_prints_written_twoFiles :
    let args := ["-f", "*.ts", "--exclude", "/b.ts", "-d", "out/x.json"]
    let written := run twoFiles ⟨"/"⟩ args none
    let printed := run twoFiles ⟨"/"⟩ (args ++ ["--stdout"]) none
    parse args none = .ok toNewDirectory ∧ toNewDirectory.toStdout = false ∧
      written.exitCode = 0 ∧ printed.exitCode = 0 ∧
      ∃ text, written.fileSystem.readText ⟨"/out/x.json"⟩ = .ok text ∧
        printed.output = text ++ "\n" := by
  intro args written printed
  have hargs : parse args none = .ok toNewDirectory := rfl
  have hargs' : parse (args ++ ["--stdout"]) none = .ok toNewDirectory.printing := rfl
  have hadds : AddsStdout args (args ++ ["--stdout"]) := by
    have hinsert := AddsStdout.insert args []
    rwa [List.append_nil] at hinsert
  have hexit : written.exitCode = 0 :=
    (congrArg Outcome.exitCode (run_eq_runWith hargs twoFiles ⟨"/"⟩)).trans exitCode_toNewDirectory
  obtain ⟨s, files, text, document, hs, -, htext, -, -, -, hprinted⟩ :=
    run_prints_written hargs rfl hexit
  obtain rfl := Except.ok.inj (load_toNewDirectory.symm.trans hs)
  obtain ⟨hexit', houtput, -⟩ := hprinted _ _ hadds hargs'
  exact ⟨hargs, rfl, hexit, hexit', text, htext, houtput⟩

end MarkupCatalog

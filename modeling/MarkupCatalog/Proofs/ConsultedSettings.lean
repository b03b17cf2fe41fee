import MarkupCatalog.Proofs.WrittenFiles
import MarkupCatalog.Settings.Load

/-!
# Consulted settings files

Whether settings can be loaded depends on the settings file that is consulted, if there is one, and
on nothing else.  If it holds a layer, the layer comes between the defaults and what overrides them;
if it does not, the failure names the file.
-/

namespace MarkupCatalog

/-! ## 1. Files as texts -/

namespace FileSystem

/-- Why no text can be read from a file: it cannot be read at all, or its content is none. -/
inductive Unreadable (fs : FileSystem) (p : Path) : FileFault → Prop
  | refused {fault : FileFault} (h : fs.read p = .error fault) : Unreadable fs p fault
  | garbled {content : ByteArray} (h : fs.read p = .ok content)
      (htext : ∀ text : String, content ≠ text.toUTF8) : Unreadable fs p .notText

variable {fs : FileSystem} {p : Path}

theorem readText_eq_ok_iff {text : String} :
    fs.readText p = .ok text ↔ fs.read p = .ok text.toUTF8 := by
  refine ⟨fun h => ?_, readText_of_read⟩
  unfold readText at h
  cases hread : fs.read p with
  | error fault =>
    rw [hread] at h
    cases h
  | ok content =>
    simp only [hread] at h
    split at h
    next htext =>
      cases h
      rw [RawText.fromUTF8?_eq_some_iff.mp htext]
    next => cases h

theorem readText_eq_error_iff {fault : FileFault} :
    fs.readText p = .error fault ↔ fs.Unreadable p fault := by
  unfold readText
  constructor
  · intro h
    cases hread : fs.read p with
    | error fault' =>
      rw [hread] at h
      cases h
      exact .refused hread
    | ok content =>
      simp only [hread] at h
      split at h
      next => cases h
      next htext =>
        cases h
        refine .garbled hread fun text heq => ?_
        rw [RawText.fromUTF8?_eq_some_iff.mpr heq] at htext
        cases htext
  · intro h
    cases h with
    | refused h => rw [h]
    | @garbled content h htext =>
      have hnone : String.fromUTF8? content = none := by
        rw [Option.eq_none_iff_forall_ne_some]
        exact fun text hsome => htext text (RawText.fromUTF8?_eq_some_iff.mp hsome)
      simp only [h, hnone]

end FileSystem

namespace Settings

/-! ## 2. The consulted file -/

/-- A settings file that is named is consulted; without one, the file with the default name is, if
it is there. -/
inductive Consults (fs : FileSystem) (directory : Path) : Option Path → Path → Prop
  | named (p : Path) : Consults fs directory (some p) (directory.join p)
  | present (h : fs.isFile (directory.join ⟨fileName⟩) = true) :
      Consults fs directory none (directory.join ⟨fileName⟩)

/-- The file holds a text that is read as the layer. -/
def Layer.StoredIn (l : Layer) (fs : FileSystem) (p : Path) : Prop :=
  ∃ text : String, fs.read p = .ok text.toUTF8 ∧ Layer.ofText text = .ok l

/-- Why a file holds no layer. -/
inductive Broken (fs : FileSystem) (p : Path) : String → Prop
  | unreadable {fault : FileFault} (h : fs.Unreadable p fault) : Broken fs p fault.message
  | rejected {text message : String} (htext : fs.read p = .ok text.toUTF8)
      (h : Layer.ofText text = .error message) : Broken fs p message

variable {fs : FileSystem} {directory : Path} {named : Option Path} {p : Path}

theorem file?_eq_some_iff : file? fs directory named = some p ↔ Consults fs directory named p := by
  constructor
  · intro h
    cases named with
    | some q =>
      cases h
      exact .named q
    | none =>
      unfold file? at h
      dsimp only at h
      split_ifs at h with hfile
      cases h
      exact .present hfile
  · intro h
    cases h with
    | named q => rfl
    | present hfile => exact if_pos hfile

theorem file?_eq_none_iff :
    file? fs directory named = none ↔ ∀ p, ¬ Consults fs directory named p := by
  rw [Option.eq_none_iff_forall_ne_some]
  exact forall_congr' fun p => not_congr file?_eq_some_iff

theorem ofFile_eq_ok_iff {l : Layer} : Layer.ofFile fs p = .ok l ↔ l.StoredIn fs p := by
  unfold Layer.ofFile Layer.StoredIn
  simp only [← FileSystem.readText_eq_ok_iff]
  cases fs.readText p with
  | error fault => simp
  | ok text => cases h : Layer.ofText text <;> simp [h]

theorem ofFile_eq_error_iff {e : Failure} : Layer.ofFile fs p = .error e ↔
    ∃ message, Broken fs p message ∧ e = .badSettings p.text message := by
  unfold Layer.ofFile
  constructor
  · intro h
    split at h
    next fault hfault =>
      cases h
      exact ⟨_, .unreadable (FileSystem.readText_eq_error_iff.mp hfault), rfl⟩
    next text htext =>
      split at h
      next message hmessage =>
        cases h
        exact ⟨_, .rejected (FileSystem.readText_eq_ok_iff.mp htext) hmessage, rfl⟩
      next => cases h
  · rintro ⟨_, hbroken, rfl⟩
    cases hbroken with
    | unreadable hfault => rw [FileSystem.readText_eq_error_iff.mpr hfault]
    | rejected htext hmessage => simp only [FileSystem.readText_eq_ok_iff.mpr htext, hmessage]

/-! ## 3. Loading -/

variable {overrides : Layer}

theorem load_eq_error_iff {e : Failure} : load fs directory named overrides = .error e ↔
    ∃ p, Consults fs directory named p ∧ Layer.ofFile fs p = .error e := by
  simp only [← file?_eq_some_iff]
  unfold load
  cases file? fs directory named with
  | none => simp
  | some p => cases h : Layer.ofFile fs p <;> simp [h, Except.map]

theorem load_eq_ok_iff {s : Settings} : load fs directory named overrides = .ok s ↔
    (∀ p, ¬ Consults fs directory named p) ∧ s = ({} : Settings).apply overrides ∨
      ∃ p l, Consults fs directory named p ∧ Layer.ofFile fs p = .ok l ∧
        s = (({} : Settings).apply l).apply overrides := by
  rw [← file?_eq_none_iff]
  simp only [← file?_eq_some_iff]
  unfold load
  cases file? fs directory named with
  | none => simp [eq_comm]
  | some p => cases h : Layer.ofFile fs p <;> simp [h, Except.map, eq_comm]

/-- Settings fail to load exactly if a file is consulted that holds no layer, and the failure, which
is a mistake in the settings, names this file.  Otherwise they are the defaults with the layer of
the consulted file, if there is one, and then the overriding layer. -/
theorem load_decided (fs : FileSystem) (directory : Path) (named : Option Path)
    (overrides : Layer) :
    (∀ e, load fs directory named overrides = .error e ↔
      ∃ p message, Consults fs directory named p ∧ Broken fs p message ∧
        e = .badSettings p.text message ∧ e.exitCode = 2) ∧
    ∀ s, load fs directory named overrides = .ok s ↔
      (∀ p, ¬ Consults fs directory named p) ∧ s = ({} : Settings).apply overrides ∨
      ∃ p l, Consults fs directory named p ∧ l.StoredIn fs p ∧
        s = (({} : Settings).apply l).apply overrides := by
  constructor
  · intro e
    rw [load_eq_error_iff]
    constructor
    · rintro ⟨p, hconsults, hfile⟩
      obtain ⟨message, hbroken, rfl⟩ := ofFile_eq_error_iff.mp hfile
      exact ⟨p, message, hconsults, hbroken, rfl, rfl⟩
    · rintro ⟨p, message, hconsults, hbroken, rfl, -⟩
      exact ⟨p, hconsults, ofFile_eq_error_iff.mpr ⟨message, hbroken, rfl⟩⟩
  · intro s
    simp only [load_eq_ok_iff, ofFile_eq_ok_iff]

end Settings
end MarkupCatalog

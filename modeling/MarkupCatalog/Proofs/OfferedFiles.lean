import MarkupCatalog.Proofs.SelectedFiles

/-!
# Offered files

The source files that a walk comes to, whatever pattern is to select among them.  A pattern selects
those of them that it applies to, so that only what a pattern applies to has to be asked.
-/

namespace MarkupCatalog

namespace Selection

/-! ## 1. Offers -/

/-- Names lead to a file with source text below a directory: no name is skipped, and no exclude
pattern applies to the file or to a directory on the way. -/
structure Offers (excludes : List String) (entries : List (RawText × Node)) (names : List RawText) :
    Prop where
  isFile : ∃ content, (Node.directory entries).at? names = some (.file content)
  shown : ∀ name ∈ names, isSkippedName name = false
  entered : ∀ before after, names = before ++ after → before ≠ [] → after ≠ [] →
    ∀ e ∈ excludes, ¬ Glob.Applies e before true
  kept : ∀ e ∈ excludes, ¬ Glob.Applies e names false
  isSource : names.getLast?.any isSourceName = true

section Offers

variable {excludes : List String} {entries : List (RawText × Node)}

theorem Offers.ne_nil {names : List RawText} (h : Offers excludes entries names) : names ≠ [] := by
  rintro rfl
  obtain ⟨content, hfile⟩ := h.isFile
  cases Option.some.inj hfile

theorem Offers.names {names : List RawText} (h : Offers excludes entries names)
    (hproper : (Node.directory entries).Proper) : ∀ name ∈ names, IsEntryName name := by
  obtain ⟨content, hfile⟩ := h.isFile
  exact hproper.names_of_at? hfile

end Offers

/-- The patterns of a selection take what is offered and what the first of them applies to. -/
theorem selects_iff {pattern : String} {excludes : List String} {s : Selection}
    (hs : ofPatterns pattern excludes = .ok s) {entries : List (RawText × Node)}
    {names : List RawText} : s.Selects [] entries names ↔ Offers excludes entries names ∧
      Glob.Applies (Glob.Rooted.ofPattern pattern).tied names false := by
  have hexcluded := excludes_eq_false_iff hs
  have hincluded := (applies_of_ofPatterns hs names false).1
  constructor
  · intro h
    refine ⟨⟨h.isFile, h.shown, ?_, (hexcluded names false).mp h.kept, h.isSource⟩, ?_⟩
    · intro before after heq hbefore hafter
      exact (hexcluded before true).mp (h.entered before after heq hbefore hafter)
    · exact hincluded.mp h.included
  · rintro ⟨h, happlies⟩
    refine ⟨h.isFile, h.shown, ?_, (hexcluded names false).mpr h.kept, ?_, h.isSource⟩
    · intro before after heq hbefore hafter
      exact (hexcluded before true).mpr (h.entered before after heq hbefore hafter)
    · exact hincluded.mpr happlies

theorem pathOf_injective {root : Path} (hroot : root.raw.bytes ≠ []) {names names' : List RawText}
    (hnames : ∀ name ∈ names, IsEntryName name) (hnames' : ∀ name ∈ names', IsEntryName name)
    (h : pathOf root names = pathOf root names') : names = names' := by
  have hcomponents := congrArg Path.components h
  rw [components_pathOf hroot hnames, components_pathOf hroot hnames'] at hcomponents
  have hinjective : Function.Injective Path.Component.name := fun _ _ h => Path.Component.name.inj h
  exact List.map_injective_iff.mpr hinjective (List.append_cancel_left hcomponents)

end Selection

/-! ## 2. Runs -/

/-- What a run selects of a directory: the files that are offered and to which the pattern
applies. -/
theorem FileSystem.mem_select_iff {fs : FileSystem} (hproper : fs.Proper) {base : Path}
    {pattern : String} {excludes : List String} {files : List Path}
    (h : fs.select base pattern excludes = .ok files) :
    ∃ entries, fs.directory? (Selection.walkRoot base pattern) = some entries ∧
      (Node.directory entries).Proper ∧
      ∀ p, p ∈ files ↔ ∃ names, Selection.Offers excludes entries names ∧
        Glob.Applies (Glob.Rooted.ofPattern pattern).tied names false ∧
        Selection.pathOf (Selection.walkRoot base pattern) names = p := by
  obtain ⟨entries, s, hentries, hs, rfl⟩ := select_eq_ok_iff.mp h
  have hentriesProper : (Node.directory entries).Proper := Proper.directory? hproper hentries
  refine ⟨entries, hentries, hentriesProper, fun p => ?_⟩
  rw [List.mem_map]
  apply exists_congr
  intro names
  rw [(Selection.sorted_perm _).mem_iff, ← List.nil_append names,
    Selection.mem_walk_iff hentriesProper, Selection.selects_iff hs, and_assoc]
  rfl

/-! ## 3. A single file -/

/-- An empty file at the top, and nothing else. -/
def singleFile (name : RawText) : FileSystem := ⟨[(name, .file .empty)]⟩

section SingleFile

variable {name : RawText}

theorem proper_singleFile (h : IsEntryName name) : (singleFile name).Proper :=
  Node.Proper.nil.cons h List.not_mem_nil (.file _)

theorem Selection.walk_singleFile {s : Selection} (hshown : isSkippedName name = false)
    (hkept : s.excludes [name] false = false) (htaken : s.takes [name] name = true) :
    s.walk [] (singleFile name).entries = [[name]] := by
  have hfound : s.found [] (name, .file .empty) = [[name]] := by
    unfold found
    simp [hshown, hkept, htaken]
  have hwalk : s.walk [] (singleFile name).entries = s.found [] (name, .file .empty) ++ [] :=
    walk_eq_flatMap s [] (singleFile name).entries
  rw [hwalk, hfound, List.append_nil]

theorem FileSystem.select_singleFile {pattern : String} {excludes : List String} {s : Selection}
    (hroot : Selection.walkRoot ⟨"/"⟩ pattern = ⟨"/"⟩)
    (hs : Selection.ofPatterns pattern excludes = .ok s) (hshown : isSkippedName name = false)
    (hkept : s.excludes [name] false = false) (htaken : s.takes [name] name = true) :
    (singleFile name).select ⟨"/"⟩ pattern excludes = .ok [Selection.pathOf ⟨"/"⟩ [name]] := by
  rw [select_eq_ok_iff, hroot]
  refine ⟨(singleFile name).entries, s, directory?_root (singleFile name), hs, ?_⟩
  rw [Selection.walk_singleFile hshown hkept htaken, Selection.sorted, List.mergeSort_singleton]
  rfl

end SingleFile

end MarkupCatalog

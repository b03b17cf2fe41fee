import MarkupCatalog.Proofs.LiteralPrefixes

/-!
# Literal roots of patterns

A pattern is cut behind its longest leading directory without wildcards, and nothing of it is lost.
The component before the cut and the one behind it tell where it is: every component in front of it
is literal, and the first one behind it has a wildcard unless it is the last of all.
-/

namespace MarkupCatalog.Glob.Rooted

open Text

/-! ## 1. The cut -/

theorem any_isWildcard_of_mem_cut {ps : List (List Char)} :
    ∀ p ∈ (cut ps).1, p.any isWildcard = false := by
  fun_induction cut ps with
  | case1 => simp
  | case2 last => simp
  | case3 p q r hp => simp
  | case4 p q r hp literal glob heq ih =>
    rw [heq] at ih
    simpa using ⟨by simpa using hp, by simpa using ih⟩

theorem cut_fst_append_snd (ps : List (List Char)) : (cut ps).1 ++ (cut ps).2 = ps := by
  cases ps with
  | nil => rfl
  | cons p ps =>
    obtain ⟨q, qs, hglob, happend⟩ := cut_fst_append (p :: ps) (List.cons_ne_nil p ps)
    rw [hglob, happend]

theorem cut_snd_ne_nil {ps : List (List Char)} (hps : ps ≠ []) : (cut ps).2 ≠ [] := by
  obtain ⟨q, qs, hglob, -⟩ := cut_fst_append ps hps
  rw [hglob]
  exact List.cons_ne_nil q qs

/-- What is cut off begins with a wildcard, or is one component. -/
theorem cut_snd_eq_cons {ps : List (List Char)} {q : List Char} {qs : List (List Char)}
    (h : (cut ps).2 = q :: qs) : q.any isWildcard = true ∨ qs = [] := by
  fun_induction cut ps with
  | case1 => exact absurd h (by simp)
  | case2 last =>
    obtain ⟨-, rfl⟩ := List.cons.inj h
    exact .inr rfl
  | case3 p q' r hp =>
    obtain ⟨rfl, -⟩ := List.cons.inj h
    exact .inl hp
  | case4 p q' r hp literal glob heq ih =>
    rw [heq] at ih
    exact ih h

/-- A text in front of a slash is cut off, with the slash, if it is literal. -/
theorem cut_split_append {d : List Char} (hd : ∀ c ∈ d, isWildcard c = false) (g : List Char) :
    cut (split '/' (d ++ '/' :: g)) =
      (split '/' d ++ (cut (split '/' g)).1, (cut (split '/' g)).2) := by
  rw [split_append]
  exact cut_append (fun _ => any_isWildcard_of_mem_split hd) (split_ne_nil '/' g)

theorem join_eq_nil_iff {ps : List (List Char)} : join ['/'] ps = [] ↔ ps = [] ∨ ps = [[]] := by
  cases ps with
  | nil => simp [join]
  | cons p ps =>
    cases ps with
    | nil => simp [join]
    | cons q qs => simp [join]

theorem join_suffix (ps : List (List Char)) {qs : List (List Char)} (hqs : qs ≠ []) :
    join ['/'] qs <:+ join ['/'] (ps ++ qs) := by
  cases ps with
  | nil => exact List.suffix_refl _
  | cons p ps =>
    rw [join_append (List.cons_ne_nil p ps) hqs]
    exact List.suffix_append _ _

/-! ## 2. The root -/

/-- How the text of a pattern is put together from a root and a glob.  Without a directory in front,
the root is the base itself. -/
inductive Joins (r : Rooted) (p : List Char) : Prop
  | whole (root : r.root = ⟨"."⟩) (glob : p = r.glob.toList)
  | slash (root : r.root = ⟨"/"⟩) (glob : p = '/' :: r.glob.toList)
  | below (root : r.root.text ≠ "") (glob : p = r.root.text.toList ++ '/' :: r.glob.toList)

/-- A root and a glob that the text of a pattern is cut into. -/
structure IsCutOf (r : Rooted) (p : List Char) : Prop where
  isText : r.root = .mk r.root.text
  lossless : r.Joins p
  literal : ∀ piece ∈ split '/' r.root.text.toList, ∀ c ∈ piece, isWildcard c = false
  glob : ∃ q qs, split '/' r.glob.toList = q :: qs ∧ ((∃ c ∈ q, isWildcard c = true) ∨ qs = [])
  absolute : r.root.isAbsolute = true ↔ p.head? = some '/'
  longest {d g : List Char} (split : p = d ++ '/' :: g) (literal : ∀ c ∈ d, isWildcard c = false) :
    r.glob.toList <:+ g

theorem head?_eq_slash_iff {s : List Char} :
    s.head? = some '/' ↔ ∃ ps, (cut (split '/' s)).1 = [] :: ps := by
  constructor
  · intro h
    obtain ⟨t, rfl⟩ := List.head?_eq_some_iff.mp h
    exact ⟨_, congrArg Prod.fst (cut_split_append (d := []) (by simp) t)⟩
  · -- the glob keeps a component, so that a slash stands behind the empty one
    rintro ⟨ps, hps⟩
    have hglob := cut_snd_ne_nil (split_ne_nil '/' s)
    rw [← join_split '/' s, ← cut_fst_append_snd (split '/' s), hps, List.cons_append,
      join_cons (by simp [hglob])]
    rfl

theorem root_ofPattern_of_join_nil {pattern : String}
    (h : join ['/'] (cut (components pattern)).1 = []) :
    (ofPattern pattern).root = ⟨if (slashed pattern).head? = some '/' then "/" else "."⟩ := by
  unfold components slashed at h
  unfold ofPattern slashed
  simp only [h]
  split
  next => rfl
  next => rfl

theorem root_ofPattern_of_join_ne_nil {pattern : String}
    (h : join ['/'] (cut (components pattern)).1 ≠ []) :
    (ofPattern pattern).root = ⟨String.ofList (join ['/'] (cut (components pattern)).1)⟩ := by
  unfold components slashed at h ⊢
  unfold ofPattern
  dsimp only
  split
  next hjoin => exact absurd hjoin h
  next => rfl

/-- The literal components are none, a single slash in front, or a directory. -/
theorem root_ofPattern_cases (pattern : String) :
    (cut (components pattern)).1 = [] ∧ (ofPattern pattern).root = ⟨"."⟩ ∨
      (cut (components pattern)).1 = [[]] ∧ (ofPattern pattern).root = ⟨"/"⟩ ∨
      (cut (components pattern)).1 ≠ [] ∧ ∃ root, root ≠ "" ∧ (ofPattern pattern).root = .mk root ∧
        root.toList = join ['/'] (cut (components pattern)).1 := by
  have hhead : (slashed pattern).head? = some '/' ↔ ∃ ps, (cut (components pattern)).1 = [] :: ps :=
    head?_eq_slash_iff
  by_cases hjoin : join ['/'] (cut (components pattern)).1 = []
  · rw [root_ofPattern_of_join_nil hjoin]
    -- an empty text is that of no component, or of the empty one in front of a leading slash
    rcases join_eq_nil_iff.mp hjoin with hliteral | hliteral
    · exact .inl ⟨hliteral, by rw [if_neg (by simp [hhead, hliteral])]⟩
    · exact .inr (.inl ⟨hliteral, by rw [if_pos (by simp [hhead, hliteral])]⟩)
  · have hliteral : (cut (components pattern)).1 ≠ [] :=
      fun hliteral => hjoin (join_eq_nil_iff.mpr (.inl hliteral))
    refine .inr (.inr ⟨hliteral, _, ?_, root_ofPattern_of_join_ne_nil hjoin, String.toList_ofList⟩)
    rw [Ne, ← String.toList_eq_nil_iff, String.toList_ofList]
    exact hjoin

section Parts

variable (pattern : String)

theorem slashed_eq_join :
    slashed pattern =
      join ['/'] ((cut (components pattern)).1 ++ (cut (components pattern)).2) := by
  rw [cut_fst_append_snd]
  exact (join_split '/' (slashed pattern)).symm

theorem toList_glob_ofPattern :
    (ofPattern pattern).glob.toList = join ['/'] (cut (components pattern)).2 := by
  rw [glob_ofPattern, String.toList_ofList]

theorem glob_components_ne_nil : (cut (components pattern)).2 ≠ [] :=
  cut_snd_ne_nil (split_ne_nil '/' (slashed pattern))

theorem not_mem_of_mem_cut :
    ∀ p ∈ (cut (components pattern)).1 ++ (cut (components pattern)).2, '/' ∉ p := by
  rw [cut_fst_append_snd]
  exact fun p => not_mem_of_mem_split

theorem split_glob_ofPattern :
    split '/' (ofPattern pattern).glob.toList = (cut (components pattern)).2 := by
  rw [toList_glob_ofPattern]
  exact split_join (glob_components_ne_nil pattern) fun p hp =>
    not_mem_of_mem_cut pattern p (List.mem_append_right _ hp)

theorem root_ofPattern_isText :
    (ofPattern pattern).root = .mk (ofPattern pattern).root.text := by
  have hmk {root : String} (h : (ofPattern pattern).root = .mk root) :
      (ofPattern pattern).root = .mk (ofPattern pattern).root.text := by rw [h, Path.text_mk]
  rcases root_ofPattern_cases pattern with ⟨-, hroot⟩ | ⟨-, hroot⟩ | ⟨-, root, -, hroot, -⟩
  · exact hmk hroot
  · exact hmk hroot
  · exact hmk hroot

theorem joins_ofPattern : (ofPattern pattern).Joins (slashed pattern) := by
  have htext := slashed_eq_join pattern
  have hglob := toList_glob_ofPattern pattern
  rcases root_ofPattern_cases pattern with ⟨hliteral, hroot⟩ | ⟨hliteral, hroot⟩ |
    ⟨hliteral, root, hne, hroot, hjoin⟩
  · exact .whole hroot (by rw [htext, hglob, hliteral, List.nil_append])
  · refine .slash hroot ?_
    rw [htext, hglob, hliteral, List.singleton_append, join_cons (glob_components_ne_nil pattern)]
    rfl
  · refine .below (by rwa [hroot, Path.text_mk]) ?_
    rw [htext, hglob, hroot, Path.text_mk, hjoin,
      join_append hliteral (glob_components_ne_nil pattern), List.append_assoc]
    rfl

theorem root_ofPattern_literal :
    ∀ piece ∈ split '/' (ofPattern pattern).root.text.toList,
      ∀ c ∈ piece, isWildcard c = false := by
  have hmk {root : String} (h : (ofPattern pattern).root = .mk root) :
      (ofPattern pattern).root.text = root := by rw [h, Path.text_mk]
  rcases root_ofPattern_cases pattern with ⟨-, hroot⟩ | ⟨-, hroot⟩ |
    ⟨hliteral, root, -, hroot, hjoin⟩
  · rw [hmk hroot]
    decide
  · rw [hmk hroot]
    decide
  · rw [hmk hroot, hjoin, split_join hliteral fun p hp =>
      not_mem_of_mem_cut pattern p (List.mem_append_left _ hp)]
    intro p hp
    simpa using any_isWildcard_of_mem_cut p hp

theorem isAbsolute_root_ofPattern :
    (ofPattern pattern).root.isAbsolute = true ↔ (slashed pattern).head? = some '/' := by
  rcases root_ofPattern_cases pattern with ⟨hliteral, hroot⟩ | ⟨hliteral, hroot⟩ |
    ⟨hliteral, root, hne, hroot, hjoin⟩
  · -- a leading slash would leave a literal component
    have hhead : ¬ (slashed pattern).head? = some '/' := by
      rw [head?_eq_slash_iff]
      rintro ⟨ps, hps⟩
      exact absurd (hliteral.symm.trans hps) (by simp)
    exact iff_of_false (by rw [hroot]; decide) hhead
  · exact iff_of_true (by rw [hroot]; rfl) (head?_eq_slash_iff.mpr ⟨_, hliteral⟩)
  · -- the pattern begins as its root does
    have htext : slashed pattern = root.toList ++
        (['/'] ++ join ['/'] (cut (components pattern)).2) := by
      rw [slashed_eq_join, join_append hliteral (glob_components_ne_nil pattern), hjoin,
        List.append_assoc]
    rw [htext, List.head?_append_of_ne_nil _ (mt String.toList_eq_nil_iff.mp hne), hroot]
    exact Path.isAbsolute_iff

end Parts

/-- A pattern is cut, without loss, behind its longest literal directory. -/
theorem ofPattern_isCutOf (pattern : String) : (ofPattern pattern).IsCutOf (slashed pattern) where
  isText := root_ofPattern_isText pattern
  lossless := joins_ofPattern pattern
  literal := root_ofPattern_literal pattern
  glob := by
    obtain ⟨q, qs, hcut⟩ := List.exists_cons_of_ne_nil (glob_components_ne_nil pattern)
    refine ⟨q, qs, (split_glob_ofPattern pattern).trans hcut, ?_⟩
    simpa using cut_snd_eq_cons hcut
  absolute := isAbsolute_root_ofPattern pattern
  longest := by
    intro d g hsplit hd
    -- behind a literal text, the pattern is cut where the rest of it is
    have hcut : (cut (components pattern)).2 = (cut (split '/' g)).2 := by
      rw [components, hsplit, cut_split_append hd]
    have hg := join_suffix (cut (split '/' g)).1 (cut_snd_ne_nil (split_ne_nil '/' g))
    rw [cut_fst_append_snd, join_split] at hg
    rwa [toList_glob_ofPattern, hcut]

end MarkupCatalog.Glob.Rooted

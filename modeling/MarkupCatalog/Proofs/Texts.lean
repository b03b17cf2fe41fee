import Mathlib.Data.List.DropRight
import Mathlib.Data.List.TakeDrop
import Mathlib.Data.List.TakeWhile
import MarkupCatalog.Text.Blank
import MarkupCatalog.Text.Word

/-!
# Trimming, splitting and joining

What trimming leaves, how the pieces of a text and the lines in it go together, and that no blank
belongs to a word.
-/

namespace MarkupCatalog.Text

/-! ## 1. Blanks at the ends -/

/-- Only the characters of a text are looked at, not all that there are. -/
instance (priority := 2000) decidableForallMem (s : List Char) (p : Char → Prop) [DecidablePred p] :
    Decidable (∀ c ∈ s, p c) := List.decidableBAll p s

instance (priority := 2000) decidableForallMemOption (c? : Option Char) (p : Char → Prop)
    [DecidablePred p] :
    Decidable (∀ c ∈ c?, p c) := decidable_of_iff (∀ c ∈ c?.toList, p c) (by simp)

/-- A text without a blank at either end. -/
structure Trimmed (s : List Char) : Prop where
  first : ∀ c ∈ s.head?, isBlank c = false
  last : ∀ c ∈ s.getLast?, isBlank c = false

instance (s : List Char) : Decidable (Trimmed s) :=
  decidable_of_iff ((∀ c ∈ s.head?, isBlank c = false) ∧ ∀ c ∈ s.getLast?, isBlank c = false)
    ⟨fun h => ⟨h.1, h.2⟩, fun h => ⟨h.first, h.last⟩⟩

theorem Trimmed.nil : Trimmed [] where
  first := nofun
  last := nofun

theorem Trimmed.append {s t : List Char} (hs : Trimmed s) (ht : Trimmed t) : Trimmed (s ++ t) where
  first := by
    cases s with
    | nil => exact ht.first
    | cons c s => exact hs.first
  last := by
    intro c hc
    rw [Option.mem_def, List.getLast?_append, Option.or_eq_some_iff] at hc
    exact hc.elim (ht.last c) fun h => hs.last c h.2

/-- What stands inside a text does not matter. -/
theorem Trimmed.around {s t : List Char} (hs : Trimmed s) (hsne : s ≠ []) (ht : Trimmed t)
    (htne : t ≠ []) (inner : List Char) : Trimmed (s ++ inner ++ t) where
  first := by
    cases s with
    | nil => exact absurd rfl hsne
    | cons c s => exact hs.first
  last := by
    rw [List.getLast?_append_of_ne_nil _ htne]
    exact ht.last

theorem trim_eq_nil_iff (s : List Char) : trim s = [] ↔ ∀ c ∈ s, isBlank c := by
  unfold trim trimEnd trimStart
  rw [List.reverse_eq_nil_iff, List.dropWhile_eq_nil_iff]
  constructor
  · intro h c hc
    rw [← List.takeWhile_append_dropWhile (p := isBlank) (l := s), List.mem_append] at hc
    rcases hc with hc | hc
    · exact List.mem_takeWhile_imp hc
    · exact h c (List.mem_reverse.mpr hc)
  · intro h c hc
    exact h c ((List.dropWhile_sublist _).subset (List.mem_reverse.mp hc))

theorem trimStart_eq_self {s : List Char} (h : ∀ c ∈ s.head?, isBlank c = false) :
    trimStart s = s := by
  cases s with
  | nil => rfl
  | cons c s =>
    apply List.dropWhile_cons_of_neg
    rw [h c rfl]
    exact Bool.false_ne_true

theorem trimEnd_eq_self {s : List Char} (h : ∀ c ∈ s.getLast?, isBlank c = false) :
    trimEnd s = s := by
  have hreverse : trimStart s.reverse = s.reverse := by
    apply trimStart_eq_self
    rwa [List.head?_reverse]
  show (trimStart s.reverse).reverse = s
  rw [hreverse, List.reverse_reverse]

theorem Trimmed.trim_eq {s : List Char} (h : Trimmed s) : trim s = s := by
  rw [trim, trimStart_eq_self h.first, trimEnd_eq_self h.last]

theorem trimStart_append_of_not_blank {s : List Char} (hs : ¬ ∀ c ∈ s, isBlank c) (t : List Char) :
    trimStart (s ++ t) = trimStart s ++ t := by
  unfold trimStart
  rw [List.dropWhile_append, if_neg]
  rw [List.isEmpty_iff, List.dropWhile_eq_nil_iff]
  exact hs

section Around

variable {b : List Char} (hb : ∀ c ∈ b, isBlank c)

include hb

theorem trimStart_blanks_append (s : List Char) : trimStart (b ++ s) = trimStart s :=
  List.dropWhile_append_of_pos hb

theorem trimEnd_append_blanks (s : List Char) : trimEnd (s ++ b) = trimEnd s := by
  have hreverse : ∀ c ∈ b.reverse, isBlank c := fun c hc => hb c (List.mem_reverse.mp hc)
  show (trimStart (s ++ b).reverse).reverse = _
  rw [List.reverse_append, trimStart_blanks_append hreverse]
  rfl

theorem trim_blanks_append (s : List Char) : trim (b ++ s) = trim s := by
  rw [trim, trimStart_blanks_append hb, trim]

theorem trim_append_blanks (s : List Char) : trim (s ++ b) = trim s := by
  -- blanks alone are trimmed from the start, together with those behind them
  by_cases hs : ∀ c ∈ s, isBlank c
  · have hboth : ∀ c ∈ s ++ b, isBlank c := fun c hc => (List.mem_append.mp hc).elim (hs c) (hb c)
    rw [(trim_eq_nil_iff _).mpr hboth, (trim_eq_nil_iff _).mpr hs]
  · rw [trim, trimStart_append_of_not_blank hs, trimEnd_append_blanks hb, trim]

end Around

/-- What trimming takes away at the end are blanks. -/
theorem trimEnd_append_rest (s : List Char) : ∃ b, s = trimEnd s ++ b ∧ ∀ c ∈ b, isBlank c := by
  refine ⟨(s.reverse.takeWhile isBlank).reverse, ?_, ?_⟩
  · rw [trimEnd, ← List.reverse_append, List.takeWhile_append_dropWhile, List.reverse_reverse]
  · exact fun c hc => List.mem_takeWhile_imp (List.mem_reverse.mp hc)

theorem trim_trimEnd (s : List Char) : trim (trimEnd s) = trim s := by
  obtain ⟨b, hs, hb⟩ := trimEnd_append_rest s
  calc trim (trimEnd s)
    _ = trim (trimEnd s ++ b) := (trim_append_blanks hb _).symm
    _ = trim s := by rw [← hs]

theorem trim_trimStart (s : List Char) : trim (trimStart s) = trim s := by
  have hblank : ∀ c ∈ s.takeWhile isBlank, isBlank c := fun c hc => List.mem_takeWhile_imp hc
  calc trim (trimStart s)
    _ = trim (s.takeWhile isBlank ++ trimStart s) := (trim_blanks_append hblank _).symm
    _ = trim s := by rw [trimStart, List.takeWhile_append_dropWhile]

theorem trim_trim (s : List Char) : trim (trim s) = trim s := by
  show trim (trimEnd (trimStart s)) = _
  rw [trim_trimEnd, trim_trimStart]

/-- What stands behind a character that is no blank stays. -/
theorem trimStart_append {c : Char} (hc : isBlank c = false) (s t : List Char) :
    trimStart (s ++ c :: t) = trimStart s ++ c :: t := by
  have hstop : (c :: t).dropWhile isBlank = c :: t :=
    List.dropWhile_cons_of_neg (by rw [hc]; exact Bool.false_ne_true)
  unfold trimStart
  rw [List.dropWhile_append, hstop]
  split
  next hempty => rw [List.isEmpty_iff.mp hempty, List.nil_append]
  next => rfl

/-- What stands before a character that is no blank stays. -/
theorem trimEnd_append {s : List Char} (h : ∀ c ∈ s.getLast?, isBlank c = false) (t : List Char) :
    trimEnd (s ++ t) = s ++ trimEnd t := by
  have hkeep : trimStart s.reverse = s.reverse := by
    apply trimStart_eq_self
    rwa [List.head?_reverse]
  show (trimStart (s ++ t).reverse).reverse = s ++ (trimStart t.reverse).reverse
  unfold trimStart at hkeep ⊢
  rw [List.reverse_append, List.dropWhile_append]
  split
  next hempty =>
    rw [hkeep, List.isEmpty_iff.mp hempty, List.reverse_reverse, List.reverse_nil, List.append_nil]
  next => rw [List.reverse_append, List.reverse_reverse]

theorem trim_sublist (s : List Char) : (trim s).Sublist s := by
  have hend : (trim s).reverse.Sublist (trimStart s).reverse := by
    rw [trim, trimEnd, List.reverse_reverse]
    exact List.dropWhile_sublist _
  exact (List.reverse_sublist.mp hend).trans (List.dropWhile_sublist _)

theorem length_trim_le (s : List Char) : (trim s).length ≤ s.length := (trim_sublist s).length_le

theorem mem_of_mem_trim {c : Char} {s : List Char} (h : c ∈ trim s) : c ∈ s :=
  (trim_sublist s).subset h

theorem head?_trimStart (s : List Char) : ∀ c ∈ (trimStart s).head?, isBlank c = false := by
  intro c hc
  have hnot := List.head?_dropWhile_not isBlank s
  rw [show s.dropWhile isBlank = trimStart s from rfl, Option.mem_def.mp hc] at hnot
  simpa using hnot

theorem trimmed_trim (s : List Char) : Trimmed (trim s) where
  first := by
    intro c hc
    -- trimming at the end leaves the first character, unless it leaves nothing
    obtain ⟨b, heq, -⟩ := trimEnd_append_rest (trimStart s)
    apply head?_trimStart s
    rw [heq, List.head?_append, Option.mem_def, show trimEnd (trimStart s) = trim s from rfl,
      Option.mem_def.mp hc, Option.some_or]
  last := by
    intro c hc
    rw [trim, trimEnd, List.getLast?_reverse] at hc
    exact head?_trimStart (trimStart s).reverse c hc

/-- What a text is trimmed to stays when the text goes on. -/
theorem trim_prefix (s t : List Char) : trim s <+: trim (s ++ t) := by
  by_cases hs : ∀ c ∈ s, isBlank c
  · rw [(trim_eq_nil_iff s).mpr hs]
    exact List.nil_prefix
  · obtain ⟨b, hstart, -⟩ := trimEnd_append_rest (trimStart s)
    have hkept : trim (s ++ t) = trim s ++ trimEnd (b ++ t) :=
      calc trim (s ++ t)
        _ = trimEnd (trimStart s ++ t) := by rw [trim, trimStart_append_of_not_blank hs]
        _ = trimEnd (trim s ++ (b ++ t)) := by rw [← List.append_assoc, trim, ← hstart]
        _ = trim s ++ trimEnd (b ++ t) := trimEnd_append (trimmed_trim s).last _
    rw [hkept]
    exact List.prefix_append _ _

/-- An end without blanks around it is no more than trimmed at its front. -/
theorem suffix_trim {t : List Char} (ht : Trimmed t) (s : List Char) : t <:+ trim (s ++ t) := by
  cases t with
  | nil => exact List.nil_suffix
  | cons c t =>
    have hlast : ∀ d ∈ (trimStart s ++ c :: t).getLast?, isBlank d = false := by
      rw [List.getLast?_append_of_ne_nil _ (List.cons_ne_nil c t)]
      exact ht.last
    have hkept : trim (s ++ c :: t) = trimStart s ++ c :: t := by
      rw [trim, trimStart_append (ht.first c rfl), trimEnd_eq_self hlast]
    rw [hkept]
    exact List.suffix_append _ _

/-! ## 2. Pieces of a text -/

theorem append_of_span {p : Char → Bool} {s a b : List Char} (h : s.span p = (a, b)) :
    s = a ++ b := by
  rw [List.span_eq_takeWhile_dropWhile] at h
  obtain ⟨rfl, rfl⟩ := Prod.mk.inj h
  exact List.takeWhile_append_dropWhile.symm

theorem span_append {p : Char → Bool} {s t : List Char} (hs : ∀ c ∈ s, p c)
    (ht : ∀ c ∈ t.head?, p c = false) : (s ++ t).span p = (s, t) := by
  have htake : t.takeWhile p = [] := by
    cases t with
    | nil => rfl
    | cons c t =>
      apply List.takeWhile_cons_of_neg
      rw [ht c rfl]
      exact Bool.false_ne_true
  have hdrop : t.dropWhile p = t := by
    rw [← List.takeWhile_append_dropWhile (p := p) (l := t), htake, List.nil_append,
      List.dropWhile_idempotent]
  rw [List.span_eq_takeWhile_dropWhile, List.takeWhile_append_of_pos hs,
    List.dropWhile_append_of_pos hs, htake, hdrop, List.append_nil]

section Joins

variable {α : Type}

theorem join_cons {sep p : List α} {ps : List (List α)} (h : ps ≠ []) :
    join sep (p :: ps) = p ++ sep ++ join sep ps := by
  cases ps with
  | nil => exact absurd rfl h
  | cons q qs => rfl

theorem join_append {sep : List α} {ps qs : List (List α)} (hps : ps ≠ []) (hqs : qs ≠ []) :
    join sep (ps ++ qs) = join sep ps ++ sep ++ join sep qs := by
  induction ps with
  | nil => exact absurd rfl hps
  | cons p ps ih =>
    cases ps with
    | nil => exact join_cons hqs
    | cons p' ps =>
      have hmore : p' :: ps ++ qs ≠ [] := List.append_ne_nil_of_left_ne_nil (List.cons_ne_nil _ _) _
      rw [List.cons_append, join_cons hmore, ih (List.cons_ne_nil _ _),
        join_cons (List.cons_ne_nil p' ps)]
      simp only [List.append_assoc]

theorem join_snoc {sep : List α} {ps : List (List α)} (h : ps ≠ []) (p : List α) :
    join sep (ps ++ [p]) = join sep ps ++ sep ++ p :=
  join_append h (List.cons_ne_nil p [])

theorem join_eq_intercalate (sep : List α) (ps : List (List α)) :
    join sep ps = sep.intercalate ps := by
  induction ps with
  | nil => rfl
  | cons p ps ih =>
    cases ps with
    | nil => simp [join]
    | cons q qs => rw [join_cons (List.cons_ne_nil q qs), ih, List.intercalate_cons_cons]

theorem mem_join {sep p : List α} {ps : List (List α)} {c : α} (hp : p ∈ ps) (hc : c ∈ p) :
    c ∈ join sep ps := by
  induction ps with
  | nil => exact absurd hp List.not_mem_nil
  | cons q ps ih =>
    rcases List.mem_cons.mp hp with rfl | hp
    · cases ps with
      | nil => exact hc
      | cons q' ps => exact List.mem_append_left _ (List.mem_append_left _ hc)
    · rw [join_cons (List.ne_nil_of_mem hp)]
      exact List.mem_append_right _ (ih hp)

end Joins

section Pieces

variable {α : Type} [DecidableEq α]

section Until

variable {x : α} {s : List α} (h : x ∉ s)

include h

theorem forall_ne : ∀ c ∈ s, decide (c ≠ x) := fun _ hc => decide_eq_true fun hx => h (hx ▸ hc)

theorem takeWhile_ne_append (t : List α) : (s ++ x :: t).takeWhile (· ≠ x) = s := by
  rw [List.takeWhile_append_of_pos (forall_ne h), List.takeWhile_cons_of_neg (by simp),
    List.append_nil]

theorem dropWhile_ne_append (t : List α) : (s ++ x :: t).dropWhile (· ≠ x) = x :: t := by
  rw [List.dropWhile_append_of_pos (forall_ne h), List.dropWhile_cons_of_neg (by simp)]

theorem span_ne_append (t : List α) : (s ++ x :: t).span (· ≠ x) = (s, x :: t) := by
  rw [List.span_eq_takeWhile_dropWhile, takeWhile_ne_append h, dropWhile_ne_append h]

theorem span_ne_self : s.span (· ≠ x) = (s, []) := by
  rw [List.span_eq_takeWhile_dropWhile, List.takeWhile_eq_self_iff.mpr (forall_ne h),
    List.dropWhile_eq_nil_iff.mpr (forall_ne h)]

end Until

theorem split_ne_nil (sep : α) (s : List α) : split sep s ≠ [] := by
  cases s with
  | nil => exact List.cons_ne_nil _ _
  | cons c s =>
    rw [split]
    split
    next => exact List.cons_ne_nil _ _
    next => split <;> exact List.cons_ne_nil _ _

theorem split_append (sep : α) (s t : List α) :
    split sep (s ++ sep :: t) = split sep s ++ split sep t := by
  induction s with
  | nil => exact if_pos rfl
  | cons c s ih =>
    rw [List.cons_append, split, split, ih]
    by_cases hc : c = sep
    · rw [if_pos hc, if_pos hc]
      rfl
    · rw [if_neg hc, if_neg hc]
      cases hs : split sep s with
      | nil => exact absurd hs (split_ne_nil sep s)
      | cons p ps => rfl

theorem split_of_not_mem {sep : α} {s : List α} (h : sep ∉ s) : split sep s = [s] := by
  induction s with
  | nil => rfl
  | cons c s ih =>
    have hc : c ≠ sep := fun hc => h (hc ▸ List.mem_cons_self)
    have hs : sep ∉ s := fun hs => h (List.mem_cons_of_mem _ hs)
    rw [split, if_neg hc, ih hs]

/-- The first piece takes in what stands before it without a separator. -/
theorem split_append_of_not_mem {sep : α} {s : List α} (h : sep ∉ s) {t p : List α}
    {ps : List (List α)} (ht : split sep t = p :: ps) : split sep (s ++ t) = (s ++ p) :: ps := by
  induction s with
  | nil => exact ht
  | cons c s ih =>
    have hc : c ≠ sep := fun hc => h (hc ▸ List.mem_cons_self)
    have hs : sep ∉ s := fun hs => h (List.mem_cons_of_mem _ hs)
    rw [List.cons_append, split, if_neg hc, ih hs]
    rfl

theorem not_mem_of_mem_split {sep : α} {s p : List α} (hp : p ∈ split sep s) : sep ∉ p := by
  induction s generalizing p with
  | nil =>
    obtain rfl := List.mem_singleton.mp hp
    exact List.not_mem_nil
  | cons c s ih =>
    rw [split] at hp
    by_cases hc : c = sep
    · rw [if_pos hc] at hp
      rcases List.mem_cons.mp hp with rfl | hp
      · exact List.not_mem_nil
      · exact ih hp
    · rw [if_neg hc] at hp
      cases hs : split sep s with
      | nil => exact absurd hs (split_ne_nil sep s)
      | cons q qs =>
        rw [hs] at hp
        rcases List.mem_cons.mp hp with rfl | hp
        · have hq : sep ∉ q := ih (by rw [hs]; exact List.mem_cons_self)
          exact fun hmem => (List.mem_cons.mp hmem).elim (fun h => hc h.symm) hq
        · exact ih (by rw [hs]; exact List.mem_cons_of_mem _ hp)

theorem join_split (sep : α) (s : List α) : join [sep] (split sep s) = s := by
  induction s with
  | nil => rfl
  | cons c s ih =>
    rw [split]
    by_cases hc : c = sep
    · rw [if_pos hc, join_cons (split_ne_nil sep s), ih, hc]
      rfl
    · rw [if_neg hc]
      cases hs : split sep s with
      | nil => exact absurd hs (split_ne_nil sep s)
      | cons p ps =>
        rw [hs] at ih
        cases ps with
        | nil => exact congrArg (c :: ·) ih
        | cons q qs => exact congrArg (c :: ·) ih

/-- Pieces without the separator are found again between the separators. -/
theorem split_join {sep : α} {ps : List (List α)} (hne : ps ≠ []) (h : ∀ p ∈ ps, sep ∉ p) :
    split sep (join [sep] ps) = ps := by
  induction ps with
  | nil => exact absurd rfl hne
  | cons p ps ih =>
    have hp : split sep p = [p] := split_of_not_mem (h p List.mem_cons_self)
    cases ps with
    | nil => exact hp
    | cons q qs =>
      have hrest : ∀ p ∈ q :: qs, sep ∉ p := fun p hp => h p (List.mem_cons_of_mem _ hp)
      rw [join_cons (List.cons_ne_nil q qs), List.append_assoc, List.singleton_append, split_append,
        hp, ih (List.cons_ne_nil q qs) hrest]
      rfl

section Ends

variable {sep : α} {s : List α} (h : [] ∉ split sep s)

include h

theorem ne_nil_of_nil_not_mem_split : s ≠ [] := by
  rintro rfl
  exact h (List.mem_singleton.mpr rfl)

theorem head?_ne_of_nil_not_mem_split : s.head? ≠ some sep := by
  intro hhead
  obtain ⟨t, rfl⟩ := List.head?_eq_some_iff.mp hhead
  exact h (by rw [split, if_pos rfl]; exact List.mem_cons_self)

theorem getLast?_ne_of_nil_not_mem_split : s.getLast? ≠ some sep := by
  intro hlast
  obtain ⟨t, rfl⟩ := List.getLast?_eq_some_iff.mp hlast
  rw [split_append] at h
  exact h (List.mem_append_right _ (List.mem_singleton.mpr rfl))

end Ends

theorem mem_of_mem_split {sep c : α} {s p : List α} (hp : p ∈ split sep s) (hc : c ∈ p) :
    c ∈ s := by
  rw [← join_split sep s]
  exact mem_join hp hc

/-- Only what starts with a separator has an empty piece in front of others. -/
theorem head_ne_nil_of_split {sep : α} {s p q : List α} {ps : List (List α)}
    (hs : s.head? ≠ some sep) (h : split sep s = p :: q :: ps) : p ≠ [] := by
  rintro rfl
  rw [← join_split sep s, h] at hs
  exact hs rfl

theorem after?_append (lead s : List α) : after? lead (lead ++ s) = some s := by
  induction lead with
  | nil => rfl
  | cons c lead ih =>
    rw [List.cons_append, after?, if_pos rfl]
    exact ih

theorem before?_append (tail s : List α) : before? tail (s ++ tail) = some s := by
  unfold before?
  rw [List.reverse_append, after?_append, Option.map_some, List.reverse_reverse]

theorem isSome_after?_iff {lead s : List α} : (after? lead s).isSome = true ↔ lead <+: s := by
  induction lead generalizing s with
  | nil => simp [after?]
  | cons p lead ih =>
    cases s with
    | nil => simp [after?]
    | cons c s =>
      rw [after?, List.cons_prefix_cons]
      by_cases h : p = c
      · rw [if_pos h, ih]
        exact ⟨fun hs => ⟨h, hs⟩, And.right⟩
      · rw [if_neg h]
        exact ⟨nofun, fun hs => absurd hs.1 h⟩

theorem isSome_before?_iff {tail s : List α} : (before? tail s).isSome = true ↔ tail <:+ s := by
  unfold before?
  rw [Option.isSome_map, isSome_after?_iff, List.reverse_prefix]

/-! ## 3. Lines that are joined -/

end Pieces

theorem isBlank_newline : ∀ c ∈ ['\n'], isBlank c := by decide

/-- An empty line in front does not count in a text that is trimmed. -/
theorem trim_join_nil_cons (ls : List (List Char)) :
    trim (join ['\n'] ([] :: ls)) = trim (join ['\n'] ls) := by
  cases ls with
  | nil => rfl
  | cons l ls => exact trim_blanks_append isBlank_newline _

/-- Nor does one at the end. -/
theorem trim_join_snoc_nil (ls : List (List Char)) :
    trim (join ['\n'] (ls ++ [[]])) = trim (join ['\n'] ls) := by
  cases ls with
  | nil => rfl
  | cons l ls =>
    rw [join_snoc (List.cons_ne_nil _ _), List.append_nil, trim_append_blanks isBlank_newline]

/-! ## 4. Words -/

theorem toNat_lt_of_isAlpha {c : Char} (h : c.isAlpha) : c.toNat < 128 := by
  have hletter : c.isUpper ∨ c.isLower := Bool.or_eq_true_iff.mp h
  rcases hletter with hupper | hlower
  · have hrange : c.val ≥ 'A'.val ∧ c.val ≤ 'Z'.val := of_decide_eq_true hupper
    exact (UInt32.le_iff_toNat_le.mp hrange.2).trans_lt (by decide)
  · have hrange : (decide (c.val ≥ 'a'.val) && decide (c.val ≤ 'z'.val)) = true := hlower
    have hle : c.val ≤ 'z'.val := of_decide_eq_true (Bool.and_eq_true_iff.mp hrange).2
    exact (UInt32.le_iff_toNat_le.mp hle).trans_lt (by decide)

theorem isWordChar_of_isAlpha {c : Char} (h : c.isAlpha) : isWordChar c := by
  have halphanum : c.isAlphanum := by rw [Char.isAlphanum, h, Bool.true_or]
  rw [isWordChar, if_pos (toNat_lt_of_isAlpha h), isAsciiWordChar, halphanum, Bool.true_or]

def blankCodes : List Nat :=
  List.range' 0x9 5 ++ [0x20, 0x85, 0xa0, 0x1680] ++ List.range' 0x2000 11 ++
    [0x2028, 0x2029, 0x202f, 0x205f, 0x3000]

theorem toNat_of_isBlank {c : Char} (h : isBlank c) : c.toNat ∈ blankCodes := by
  have hcode (d : Char) (hd : d.toNat ∈ blankCodes) (h : c = d) : c.toNat ∈ blankCodes := h ▸ hd
  unfold isBlank at h
  simp only [Bool.or_eq_true, Bool.and_eq_true, decide_eq_true_eq, beq_iff_eq] at h
  -- two of the alternatives are ranges, the others are single characters
  rcases h with ((((((((((h | h) | h) | h) | h) | h) | h) | h) | h) | h) | h)
  · have hlo : 0x9 ≤ c.toNat := UInt32.le_iff_toNat_le.mp h.1
    have hhi : c.toNat ≤ 0xd := UInt32.le_iff_toNat_le.mp h.2
    simp [blankCodes, List.mem_range'_1]
    omega
  case inl.inl.inl.inl.inl.inr =>
    have hlo : 0x2000 ≤ c.toNat := UInt32.le_iff_toNat_le.mp h.1
    have hhi : c.toNat ≤ 0x200a := UInt32.le_iff_toNat_le.mp h.2
    simp [blankCodes, List.mem_range'_1]
    omega
  all_goals exact hcode _ (by decide) h

theorem isWordChar_blankCodes : ∀ n ∈ blankCodes, isWordChar (Char.ofNat n) = false := by
  decide +kernel

theorem isBlank_of_isWordChar {c : Char} (h : isWordChar c) : isBlank c = false := by
  rw [Bool.eq_false_iff]
  intro hblank
  have hword := isWordChar_blankCodes c.toNat (toNat_of_isBlank hblank)
  rw [Char.ofNat_toNat, h] at hword
  cases hword

end MarkupCatalog.Text

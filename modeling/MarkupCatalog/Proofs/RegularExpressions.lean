import MarkupCatalog.Proofs.Texts

/-!
# Regular expressions

Expressions that take the beginning of a text, and all the ways in which they can, in the order in
which a search that goes back to its last choice tries them.  A match is the first of these ways
that takes in the whole text.
-/

namespace MarkupCatalog.Text

/-! ## 1. Expressions -/

/-- Expressions for a part of a text; `one` and `many` are for the characters of a class. -/
inductive Regex where
  | empty
  | one (p : Char → Bool)
  | many (p : Char → Bool)
  | seq (a b : Regex)
  | orElse (a b : Regex)

namespace Regex

/-- The runs of characters of a class that a text starts with, the longest first, and what stands
behind each. -/
def runs (p : Char → Bool) : List Char → List (List Char × List Char)
  | [] => [([], [])]
  | c :: s => (if p c then (runs p s).map fun (w, r) => (c :: w, r) else []) ++ [([], c :: s)]

/-- The beginnings of a text that an expression matches, and what stands behind each, in the order
in which they are tried: longer runs before shorter ones, and the first alternative before the
second. -/
def ways : Regex → List Char → List (List Char × List Char)
  | empty, s => [([], s)]
  | one _, [] => []
  | one p, c :: s => if p c then [([c], s)] else []
  | many p, s => runs p s
  | seq a b, s => (a.ways s).flatMap fun (u, r) => (b.ways r).map fun (v, t) => (u ++ v, t)
  | orElse a b, s => a.ways s ++ b.ways s

/-- The ways in which expressions, one after the other, match a whole text. -/
def matchings : List Regex → List Char → List (List (List Char))
  | [], s => if s = [] then [[]] else []
  | a :: as, s => (a.ways s).flatMap fun (w, r) => (matchings as r).map (w :: ·)

/-- What each of the expressions matches in the first way that succeeds. -/
def match? (as : List Regex) (s : List Char) : Option (List (List Char)) := (matchings as s).head?

def optional (a : Regex) : Regex := orElse a empty

/-- At least one character of a class. -/
def word (p : Char → Bool) : Regex := seq (one p) (many p)

/-- The character `opening` and what follows it up to the first `closing`. -/
def group (opening closing : Char) : Regex :=
  seq (one (· = opening)) (seq (many (· ≠ closing)) (one (· = closing)))

/-! ## 2. What is matched -/

theorem append_of_mem_runs {p : Char → Bool} {s w r : List Char} (h : (w, r) ∈ runs p s) :
    w ++ r = s := by
  induction s generalizing w with
  | nil =>
    obtain ⟨rfl, rfl⟩ := Prod.mk.inj (List.mem_singleton.mp h)
    rfl
  | cons c s ih =>
    rw [runs, List.mem_append, List.mem_singleton] at h
    rcases h with h | h
    · split at h
      next =>
        obtain ⟨⟨v, t⟩, hv, heq⟩ := List.mem_map.mp h
        cases heq
        exact congrArg (c :: ·) (ih hv)
      next => cases h
    · cases h
      rfl

theorem mem_ways_one {p : Char → Bool} {s : List Char} {x : List Char × List Char}
    (h : x ∈ (one p).ways s) : ∃ c, p c ∧ x.1 = [c] ∧ s = c :: x.2 := by
  cases s with
  | nil => cases h
  | cons c s =>
    rw [ways] at h
    split at h
    next hc =>
      cases List.mem_singleton.mp h
      exact ⟨c, hc, rfl, rfl⟩
    next => cases h

theorem append_of_mem_ways {a : Regex} {s w r : List Char} (h : (w, r) ∈ a.ways s) :
    w ++ r = s := by
  induction a generalizing s w r with
  | empty =>
    cases List.mem_singleton.mp h
    rfl
  | one p =>
    obtain ⟨c, -, hw, hs⟩ := mem_ways_one h
    obtain rfl : w = [c] := hw
    exact hs.symm
  | many p => exact append_of_mem_runs h
  | seq a b iha ihb =>
    obtain ⟨⟨u, t⟩, hu, h⟩ := List.mem_flatMap.mp h
    obtain ⟨⟨v, r'⟩, hv, heq⟩ := List.mem_map.mp h
    cases heq
    rw [List.append_assoc, ihb hv, iha hu]
  | orElse a b iha ihb =>
    rcases List.mem_append.mp h with h | h
    · exact iha h
    · exact ihb h

/-- What the expressions match is the text, without anything between. -/
theorem flatten_of_mem_matchings {as : List Regex} {s : List Char} {ws : List (List Char)}
    (h : ws ∈ matchings as s) : ws.flatten = s := by
  induction as generalizing s ws with
  | nil =>
    rw [matchings] at h
    split at h
    next hs =>
      cases List.mem_singleton.mp h
      exact hs.symm
    next => cases h
  | cons a as ih =>
    obtain ⟨⟨w, r⟩, hw, h⟩ := List.mem_flatMap.mp h
    obtain ⟨ws, hws, rfl⟩ := List.mem_map.mp h
    rw [List.flatten_cons, ih hws, append_of_mem_ways hw]

/-! ## 3. What is tried first -/

theorem head?_flatMap_of_head? {α β : Type} {xs : List α} {f : α → List β} {x : α} {y : β}
    (hx : xs.head? = some x) (hy : (f x).head? = some y) :
    (xs.flatMap f).head? = some y := by
  obtain ⟨xs, rfl⟩ := List.head?_eq_some_iff.mp hx
  rw [List.flatMap_cons, List.head?_append, hy, Option.some_or]

/-- The expression matches `w` first, with `r` behind it. -/
def Starts (a : Regex) (s w r : List Char) : Prop := (a.ways s).head? = some (w, r)

theorem Starts.append {a : Regex} {s w r : List Char} (h : a.Starts s w r) : w ++ r = s :=
  append_of_mem_ways (List.mem_of_head? h)

theorem starts_many (p : Char → Bool) (s : List Char) :
    (many p).Starts s (s.takeWhile p) (s.dropWhile p) := by
  show (runs p s).head? = _
  induction s with
  | nil => rfl
  | cons c s ih =>
    rw [runs, List.takeWhile_cons, List.dropWhile_cons]
    split
    next => rw [List.head?_append, List.head?_map, ih]; rfl
    next => rfl

theorem starts_one {p : Char → Bool} {c : Char} (hc : p c) (s : List Char) :
    (one p).Starts (c :: s) [c] s := by
  unfold Starts ways
  rw [if_pos hc]
  rfl

theorem Starts.seq {a b : Regex} {s u r v t : List Char} (ha : a.Starts s u r)
    (hb : b.Starts r v t) : (a.seq b).Starts s (u ++ v) t := by
  apply head?_flatMap_of_head? ha
  rw [List.head?_map, hb]
  rfl

theorem Starts.orElse {a : Regex} {s w r : List Char} (h : a.Starts s w r) (b : Regex) :
    (a.orElse b).Starts s w r := by
  unfold Starts ways
  rw [List.head?_append, h, Option.some_or]

theorem ways_seq_eq_nil {a b : Regex} {s : List Char} (h : ∀ x ∈ a.ways s, b.ways x.2 = []) :
    (a.seq b).ways s = [] := by
  rw [ways, List.flatMap_eq_nil_iff]
  intro x hx
  show (b.ways x.2).map _ = []
  rw [h x hx, List.map_nil]

theorem starts_optional_of_ways_nil {a : Regex} {s : List Char} (ha : a.ways s = []) :
    (optional a).Starts s [] s := by
  unfold Starts optional ways
  rw [ha]
  rfl

/-- An alternative that does not match makes no difference. -/
theorem Starts.optional_orElse {a b : Regex} {s w r : List Char} (h : (optional b).Starts s w r)
    (ha : a.ways s = []) : (optional (a.orElse b)).Starts s w r := by
  have hways : (a.orElse b).ways s = b.ways s := by
    rw [ways, ha, List.nil_append]
  unfold Starts optional at h ⊢
  rw [ways, hways]
  exact h

theorem Starts.match?_cons {a : Regex} {as : List Regex} {s w r : List Char}
    {ws : List (List Char)} (ha : a.Starts s w r) (has : match? as r = some ws) :
    match? (a :: as) s = some (w :: ws) := by
  apply head?_flatMap_of_head? ha
  rw [List.head?_map, show (matchings as r).head? = _ from has]
  rfl

theorem starts_word {p : Char → Bool} {c : Char} (hc : p c) (s : List Char) :
    (word p).Starts (c :: s) (c :: s.takeWhile p) (s.dropWhile p) :=
  (starts_one hc s).seq (starts_many p s)

theorem ways_word_eq_nil {p : Char → Bool} {s : List Char} (h : ∀ c ∈ s.head?, p c = false) :
    (word p).ways s = [] := by
  apply ways_seq_eq_nil
  intro x hx
  obtain ⟨c, hc, -, rfl⟩ := mem_ways_one hx
  rw [h c rfl] at hc
  cases hc

/-- A word is matched as a whole, and nothing where there is none. -/
theorem starts_optional_word (p : Char → Bool) (s : List Char) :
    (optional (word p)).Starts s (s.takeWhile p) (s.dropWhile p) := by
  cases s with
  | nil => exact starts_optional_of_ways_nil (ways_word_eq_nil nofun)
  | cons c s =>
    by_cases hc : p c = true
    · rw [List.takeWhile_cons_of_pos hc, List.dropWhile_cons_of_pos hc]
      exact (starts_word hc s).orElse empty
    · rw [List.takeWhile_cons_of_neg hc, List.dropWhile_cons_of_neg hc]
      have hnone : ∀ d ∈ (c :: s).head?, p d = false := by
        rintro _ ⟨⟩
        exact Bool.eq_false_iff.mpr hc
      exact starts_optional_of_ways_nil (ways_word_eq_nil hnone)

section Group

variable {opening closing : Char}

theorem starts_group {inner : List Char} (h : closing ∉ inner) (rest : List Char) :
    (group opening closing).Starts (opening :: inner ++ closing :: rest)
      (opening :: inner ++ [closing]) rest := by
  have hinner := starts_many (· ≠ closing) (inner ++ closing :: rest)
  rw [takeWhile_ne_append h, dropWhile_ne_append h] at hinner
  have hopen : (one (· = opening)).Starts (opening :: inner ++ closing :: rest) [opening]
      (inner ++ closing :: rest) := starts_one (decide_eq_true rfl) _
  have hclose : (one (· = closing)).Starts (closing :: rest) [closing] rest :=
    starts_one (decide_eq_true rfl) _
  exact hopen.seq (hinner.seq hclose)

theorem ways_group_eq_nil {s : List Char}
    (h : ¬ ∃ inner rest, closing ∉ inner ∧ s = opening :: inner ++ closing :: rest) :
    (group opening closing).ways s = [] := by
  apply ways_seq_eq_nil
  intro x hx
  obtain ⟨c, hc, -, rfl⟩ := mem_ways_one hx
  obtain rfl : c = opening := of_decide_eq_true hc
  have hopen : closing ∉ x.2 := by
    intro hmem
    obtain ⟨inner, rest, heq, hinner⟩ := List.eq_append_cons_of_mem hmem
    exact h ⟨inner, rest, hinner, by rw [heq]; rfl⟩
  -- however short the run in the group is taken, there is no character to close it
  apply ways_seq_eq_nil
  intro y hy
  apply List.eq_nil_iff_forall_not_mem.mpr
  intro z hz
  obtain ⟨d, hd, -, hrest⟩ := mem_ways_one hz
  obtain rfl : d = closing := of_decide_eq_true hd
  rw [← append_of_mem_ways hy, hrest] at hopen
  exact hopen (List.mem_append_right _ List.mem_cons_self)

end Group

end Regex
end MarkupCatalog.Text

import MarkupCatalog.Proofs.RegularExpressions
import MarkupCatalog.Proofs.TypeExpressions

/-!
# Texts of parameters

The text of a parameter as a regular expression takes it apart: an optional type in braces, the
name, blanks, an optional dash with blanks, and the description.  The main statement is that the
expression matches every text of a parameter, that the name and the description that are read are
those of its first match, and that nothing but separators stands between the parts.
-/

namespace MarkupCatalog.Doc

open Text

/-! ## 1. The parts of a parameter's text -/

structure ParameterParts where
  type : List Char
  name : List Char
  gap : List Char
  dash : List Char
  text : List Char

namespace ParameterParts

def toList (p : ParameterParts) : List (List Char) := [p.type, p.name, p.gap, p.dash, p.text]

/-- A type in braces and blanks, if there is one. -/
def typeExpression : Regex := .optional ((Regex.group '\x7b' '\x7d').seq (.many isBlank))

/-- A name in brackets or a word, if there is one. -/
def nameExpression : Regex :=
  .optional ((Regex.group '[' ']').orElse (.word fun c => !isBlank c))

/-- A dash and blanks, if they are there. -/
def dashExpression : Regex := .optional ((Regex.one (· = '-')).seq (.word isBlank))

/-- The expressions for the parts; the description is all that is left. Together they are
`(\{[^}]*\}\s*)?(\[[^\]]*\]|\S+)?\s*(-\s+)?.*` in the usual notation. -/
def expressions : List Regex :=
  [typeExpression, nameExpression, .many isBlank, dashExpression, .many fun _ => true]

/-- The character `opening`, what follows it up to the first `closing`, and this one. -/
def IsGroup (opening closing : Char) (s : List Char) : Prop :=
  ∃ inner, closing ∉ inner ∧ s = opening :: inner ++ [closing]

/-- A type in braces, with the blanks behind it. -/
def IsType (s : List Char) : Prop :=
  ∃ braces blanks, IsGroup '\x7b' '\x7d' braces ∧ (∀ c ∈ blanks, isBlank c) ∧ s = braces ++ blanks

/-- A dash, with at least one blank behind it. -/
def IsDash (s : List Char) : Prop :=
  ∃ blanks, blanks ≠ [] ∧ (∀ c ∈ blanks, isBlank c) ∧ s = '-' :: blanks

/-- The parts make up the text, and there are no others between them. Where there is no name there
is nothing behind the type, and a dash that blanks follow is no part of the description. -/
structure Splits (p : ParameterParts) (s : List Char) : Prop where
  whole : s = p.type ++ p.name ++ p.gap ++ p.dash ++ p.text
  type : p.type = [] ∨ IsType p.type
  name : IsGroup '[' ']' p.name ∨ ∀ c ∈ p.name, isBlank c = false
  gap : ∀ c ∈ p.gap, isBlank c
  gapEnds : ∀ c ∈ (p.dash ++ p.text).head?, isBlank c = false
  dash : p.dash = [] ∨ IsDash p.dash
  nameless : p.name = [] → s = p.type
  dashed : ∀ c rest, p.dash ++ p.text = '-' :: c :: rest → isBlank c → p.dash ≠ []

/-! ### The type -/

theorem exists_starts_type (s : List Char) :
    ∃ type, typeExpression.Starts s type (dropType s) ∧ (type = [] ∨ IsType type) := by
  by_cases h : OpensWithType s
  · obtain ⟨inner, rest, hinner, rfl⟩ := h
    have hdrop : dropType ('\x7b' :: inner ++ '\x7d' :: rest) = rest.dropWhile isBlank := by
      rw [List.append_cons, dropType_of_type hinner, trimStart]
    rw [hdrop]
    refine ⟨'\x7b' :: inner ++ ['\x7d'] ++ rest.takeWhile isBlank, ?_, .inr ?_⟩
    · exact ((Regex.starts_group hinner rest).seq (Regex.starts_many isBlank rest)).orElse _
    · exact ⟨_, _, ⟨inner, hinner, rfl⟩, fun c hc => List.mem_takeWhile_imp hc, rfl⟩
  · rw [dropType_of_not_opens h]
    have hnone : ((Regex.group '\x7b' '\x7d').seq (.many isBlank)).ways s = [] := by
      apply Regex.ways_seq_eq_nil
      rw [Regex.ways_group_eq_nil h]
      exact fun _ hx => absurd hx List.not_mem_nil
    exact ⟨[], Regex.starts_optional_of_ways_nil hnone, .inl rfl⟩

/-- Behind a type there are no blanks. -/
theorem head?_dropType {s : List Char} (h : ∀ c ∈ s.head?, isBlank c = false) :
    ∀ c ∈ (dropType s).head?, isBlank c = false := by
  unfold dropType
  split
  next r =>
    split
    next c t hrest => exact head?_trimStart t
    next => exact h
  next => exact h

/-! ### The name -/

theorem starts_name (s : List Char) : nameExpression.Starts s (splitName s).1 (splitName s).2 := by
  by_cases h : ∃ w rest, ']' ∉ w ∧ s = '[' :: w ++ ']' :: rest
  · obtain ⟨w, rest, hw, rfl⟩ := h
    rw [splitName_of_brackets hw]
    exact ((Regex.starts_group hw rest).orElse _).orElse _
  · rw [splitName_eq_span h, List.span_eq_takeWhile_dropWhile]
    exact (Regex.starts_optional_word _ s).optional_orElse (Regex.ways_group_eq_nil h)

theorem splitName_shape (s : List Char) :
    IsGroup '[' ']' (splitName s).1 ∨ ∀ c ∈ (splitName s).1, isBlank c = false := by
  rcases splitName_cases s with ⟨w, rest, hw, -, hsplit⟩ | ⟨word, rest, hword, -, hsplit⟩
  · rw [hsplit]
    exact .inl ⟨w, hw, rfl⟩
  · rw [hsplit]
    exact .inr hword

theorem eq_nil_of_splitName {s : List Char} (h : ∀ c ∈ s.head?, isBlank c = false)
    (hname : (splitName s).1 = []) : s = [] := by
  cases s with
  | nil => rfl
  | cons c s =>
    have hc : isBlank c = false := h c rfl
    exfalso
    by_cases hclosed : ∃ w rest, ']' ∉ w ∧ c :: s = '[' :: w ++ ']' :: rest
    · obtain ⟨w, rest, hw, heq⟩ := hclosed
      rw [heq, splitName_of_brackets hw] at hname
      cases hname
    · rw [splitName_eq_span hclosed, List.span_eq_takeWhile_dropWhile,
        List.takeWhile_cons_of_pos (by rw [hc, Bool.not_false])] at hname
      cases hname

/-! ### The dash -/

theorem exists_starts_dash (s : List Char) :
    ∃ dash, dashExpression.Starts s dash (dropDash s) ∧ (dash = [] ∨ IsDash dash) ∧
      ∀ c rest, s = '-' :: c :: rest → isBlank c → dash ≠ [] := by
  by_cases h : ∃ c rest, s = '-' :: c :: rest ∧ isBlank c
  · obtain ⟨c, rest, rfl, hc⟩ := h
    have hdrop : dropDash ('-' :: c :: rest) = rest.dropWhile isBlank := if_pos hc
    rw [hdrop]
    refine ⟨'-' :: c :: rest.takeWhile isBlank, ?_, .inr ?_, fun _ _ _ _ => List.cons_ne_nil _ _⟩
    · have hdash : (Regex.one (· = '-')).Starts ('-' :: c :: rest) ['-'] (c :: rest) :=
        Regex.starts_one (decide_eq_true rfl) _
      exact (hdash.seq (Regex.starts_word hc rest)).orElse _
    · refine ⟨c :: rest.takeWhile isBlank, List.cons_ne_nil _ _, ?_, rfl⟩
      rintro d (_ | ⟨_, hd⟩)
      · exact hc
      · exact List.mem_takeWhile_imp hd
  · have hdrop : dropDash s = s := by
      unfold dropDash
      split
      next c rest => exact if_neg fun hc => h ⟨c, rest, rfl, hc⟩
      next => rfl
    -- a dash without a blank behind it is no match, and so belongs to the text
    have hnone : ((Regex.one (· = '-')).seq (.word isBlank)).ways s = [] := by
      apply Regex.ways_seq_eq_nil
      intro x hx
      obtain ⟨d, hd, -, heq⟩ := Regex.mem_ways_one hx
      obtain rfl : d = '-' := of_decide_eq_true hd
      apply Regex.ways_word_eq_nil
      intro c hc
      obtain ⟨rest, hrest⟩ := List.head?_eq_some_iff.mp hc
      rw [hrest] at heq
      exact Bool.eq_false_iff.mpr fun hblank => h ⟨c, rest, heq, hblank⟩
    rw [hdrop]
    exact ⟨[], Regex.starts_optional_of_ways_nil hnone, .inl rfl,
      fun c rest heq hc => absurd ⟨c, rest, heq, hc⟩ h⟩

end ParameterParts

/-! ## 2. Parameters -/

open ParameterParts in
/-- The expressions match every text of a parameter, and the parameter is read from what they match
first. -/
theorem exists_parameterParts {s : List Char} (hs : Trimmed s) :
    ∃ p : ParameterParts, Regex.match? expressions s = some p.toList ∧ p.Splits s ∧
      readParameter s =
        .parameter (String.ofList (bareName p.name)) (String.ofList (trim p.text)) := by
  obtain ⟨type, htype, hisType⟩ := exists_starts_type s
  obtain ⟨dash, hdash, hisDash, hdashed⟩ :=
    exists_starts_dash (trimStart (splitName (dropType s)).2)
  let p : ParameterParts :=
    { type
      name := (splitName (dropType s)).1
      gap := (splitName (dropType s)).2.takeWhile isBlank
      dash
      text := dropDash (trimStart (splitName (dropType s)).2) }
  -- each piece is matched where the one before it ends
  have htext : (Regex.many fun _ => true).Starts p.text p.text [] := by
    have hall := Regex.starts_many (fun _ => true) p.text
    rwa [List.takeWhile_eq_self_iff.mpr fun _ _ => rfl,
      List.dropWhile_eq_nil_iff.mpr fun _ _ => rfl] at hall
  have hmatch : Regex.match? expressions s = some p.toList :=
    htype.match?_cons <| (starts_name _).match?_cons <| (Regex.starts_many isBlank _).match?_cons <|
      hdash.match?_cons <| htext.match?_cons rfl
  have hrest : p.dash ++ p.text = trimStart (splitName (dropType s)).2 := hdash.append
  have hwhole : p.toList.flatten = s :=
    Regex.flatten_of_mem_matchings (List.mem_of_head? hmatch)
  -- without a name the type is all there is, because blanks at the ends are gone
  have hnameless (hname : p.name = []) : s = p.type := by
    have hnil := eq_nil_of_splitName (head?_dropType hs.first) hname
    have happend := htype.append
    rw [hnil, List.append_nil] at happend
    exact happend.symm
  refine ⟨p, hmatch, ?_, rfl⟩
  exact
    { whole := by simpa [toList] using hwhole.symm
      type := hisType
      name := splitName_shape _
      gap := fun c hc => List.mem_takeWhile_imp hc
      gapEnds := hrest ▸ head?_trimStart _
      dash := hisDash
      nameless := hnameless
      dashed := hrest ▸ hdashed }

/-- Nothing in the text of a parameter is left out but its type and separators. -/
theorem readTag_param (lines : List (List Char)) :
    let s := trim (join ['\n'] (lines.map trim))
    ∃ p : ParameterParts, Regex.match? ParameterParts.expressions s = some p.toList ∧ p.Splits s ∧
      readTag "param".toList lines =
        .parameter (String.ofList (bareName p.name)) (String.ofList (trim p.text)) := by
  intro s
  rw [readTag_eq_ofText]
  exact exists_parameterParts (trimmed_trim _)

/-- A dash in the place of the name is the name. -/
example : Regex.match? ParameterParts.expressions "\x7bT\x7d - - text".toList =
    some ["\x7bT\x7d ".toList, "-".toList, " ".toList, "- ".toList, "text".toList] := by decide

end MarkupCatalog.Doc

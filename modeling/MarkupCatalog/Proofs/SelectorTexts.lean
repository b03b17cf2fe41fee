import MarkupCatalog.Proofs.Texts
import MarkupCatalog.Selector

/-!
# Selectors as texts

How a list of fragments is written as a selector.  What a selector is read as is in a canonical
form, and whatever is in this form is read back from its text, with blanks around the parts and
blank parts among them.
-/

namespace MarkupCatalog.Selector

open Text

/-! ## 1. Fragments and their texts -/

namespace Fragment

def written : Fragment → List Char
  | element name => name.toList
  | elementAttribute tag attr => tag.toList ++ '[' :: attr.toList ++ [']']
  | globalAttribute name => '[' :: name.toList ++ [']']

/-- What stands in brackets ends at the first closing bracket of its part. -/
structure IsBracketed (s : List Char) : Prop where
  noComma : ',' ∉ s
  noBracket : ']' ∉ s

/-- What stands in front of a bracket begins its part. -/
structure IsBracketHead (s : List Char) : Prop where
  nonempty : s ≠ []
  noBlank : ∀ c ∈ s.head?, isBlank c = false
  noComma : ',' ∉ s
  noBracket : '[' ∉ s

structure IsElementName (s : List Char) : Prop where
  nonempty : s ≠ []
  trimmed : Trimmed s
  noComma : ',' ∉ s
  noBracket : '[' ∉ s

/-- A fragment as it is read from a part of a selector. -/
def Canonical : Fragment → Prop
  | element name => IsElementName name.toList
  | elementAttribute tag attr => IsBracketHead tag.toList ∧ IsBracketed attr.toList
  | globalAttribute name => IsBracketed name.toList

theorem bracketed_append {s : List Char} (h : ']' ∉ s) (t : List Char) :
    bracketed (s ++ ']' :: t) = s := takeWhile_ne_append h t

theorem ofPart_of_not_mem {s : List Char} (h : '[' ∉ s) : ofPart s = element (String.ofList s) := by
  unfold ofPart
  rw [span_ne_self h]

theorem ofPart_append {s : List Char} (h : '[' ∉ s) (t : List Char) :
    ofPart (s ++ '[' :: t) =
      if s = [] then globalAttribute (String.ofList (bracketed t))
      else elementAttribute (String.ofList s) (String.ofList (bracketed t)) := by
  unfold ofPart
  rw [span_ne_append h]
  cases s <;> rfl

/-- A part is read as a fragment in canonical form. -/
theorem canonical_ofPart {s : List Char} (hne : s ≠ []) (hs : Trimmed s) (hcomma : ',' ∉ s) :
    (ofPart s).Canonical := by
  by_cases hbracket : '[' ∈ s
  · obtain ⟨e, t, rfl, he⟩ := List.eq_append_cons_of_mem hbracket
    have hinside : IsBracketed (bracketed t) := by
      constructor
      · intro hmem
        have : ',' ∈ t := (List.takeWhile_sublist _).subset hmem
        simp_all
      · intro hmem
        have := List.mem_takeWhile_imp hmem
        simp at this
    rw [ofPart_append he]
    split
    next => simpa [Canonical] using hinside
    next hne' =>
      refine ⟨?_, by simpa using hinside⟩
      rw [String.toList_ofList]
      cases e with
      | nil => exact absurd rfl hne'
      | cons c e => exact ⟨hne', hs.first, fun h => hcomma (List.mem_append_left _ h), he⟩
  · rw [ofPart_of_not_mem hbracket, Canonical, String.toList_ofList]
    exact ⟨hne, hs, hcomma, hbracket⟩

section Written

variable {f : Fragment} (hf : f.Canonical)

include hf

theorem written_ne_nil : f.written ≠ [] := by
  cases f with
  | element name => exact hf.nonempty
  | elementAttribute tag attr => simp [written]
  | globalAttribute name => simp [written]

theorem trimmed_written : Trimmed f.written := by
  have hclose : Trimmed [']'] := ⟨by decide, by decide⟩
  cases f with
  | element name => exact hf.trimmed
  | elementAttribute tag attr =>
    obtain ⟨htag, -⟩ := hf
    constructor
    · cases htext : tag.toList with
      | nil => exact absurd htext htag.nonempty
      | cons c s =>
        have hc := htag.noBlank
        rw [htext] at hc
        rw [written, htext]
        exact hc
    · rw [written, List.getLast?_append_of_ne_nil _ (List.cons_ne_nil _ _)]
      exact hclose.last
  | globalAttribute name =>
    have hopen : Trimmed ['['] := ⟨by decide, by decide⟩
    exact hopen.around (List.cons_ne_nil _ _) hclose (List.cons_ne_nil _ _) _

theorem noComma_written : ',' ∉ f.written := by
  cases f with
  | element name => exact hf.noComma
  | elementAttribute tag attr =>
    obtain ⟨htag, hattr⟩ := hf
    simp [written, htag.noComma, hattr.noComma]
  | globalAttribute name =>
    simp [written, IsBracketed.noComma hf]

theorem ofPart_written : ofPart f.written = f := by
  cases f with
  | element name => rw [written, ofPart_of_not_mem hf.noBracket, String.ofList_toList]
  | elementAttribute tag attr =>
    obtain ⟨htag, hattr⟩ := hf
    rw [written, List.append_assoc, List.cons_append, ofPart_append htag.noBracket,
      if_neg htag.nonempty, bracketed_append hattr.noBracket, String.ofList_toList,
      String.ofList_toList]
  | globalAttribute name =>
    have hread := ofPart_append List.not_mem_nil (name.toList ++ [']'])
    rw [if_pos rfl, bracketed_append (IsBracketed.noBracket hf), String.ofList_toList] at hread
    exact hread

end Written

end Fragment

/-! ## 2. Parts -/

theorem mem_parts {s p : List Char} (h : p ∈ parts s) : p ≠ [] ∧ Trimmed p ∧ ',' ∉ p := by
  obtain ⟨hp, hne⟩ := List.mem_filter.mp h
  obtain ⟨q, hq, rfl⟩ := List.mem_map.mp hp
  exact ⟨of_decide_eq_true hne, trimmed_trim q,
    fun hcomma => not_mem_of_mem_split hq (mem_of_mem_trim hcomma)⟩

theorem parts_join {ps : List (List Char)} (h : ∀ p ∈ ps, ',' ∉ p) :
    parts (join [','] ps) = (ps.map trim).filter (· ≠ []) := by
  cases ps with
  | nil => rfl
  | cons p ps => rw [parts, split_join (List.cons_ne_nil p ps) h]

/-- Parts that hold fragments, with blanks around them, and blank parts. -/
inductive Spaced : List Fragment → List (List Char) → Prop
  | nil : Spaced [] []
  | blank {fs : List Fragment} {ps : List (List Char)} {b : List Char} (hb : ∀ c ∈ b, isBlank c)
      (h : Spaced fs ps) : Spaced fs (b :: ps)
  | part {f : Fragment} {fs : List Fragment} {ps : List (List Char)} (before after : List Char)
      (hbefore : ∀ c ∈ before, isBlank c) (hafter : ∀ c ∈ after, isBlank c) (h : Spaced fs ps) :
      Spaced (f :: fs) ((before ++ f.written ++ after) :: ps)

namespace Spaced

variable {fs : List Fragment} {ps : List (List Char)}

theorem written (fs : List Fragment) : Spaced fs (fs.map Fragment.written) := by
  induction fs with
  | nil => exact .nil
  | cons f fs ih =>
    have h : Spaced (f :: fs) (([] ++ f.written ++ []) :: fs.map Fragment.written) :=
      .part [] [] nofun nofun ih
    rwa [List.nil_append, List.append_nil] at h

variable (h : Spaced fs ps) (hfs : ∀ f ∈ fs, f.Canonical)

include h hfs

theorem noComma : ∀ p ∈ ps, ',' ∉ p := by
  have hblank {b : List Char} (hb : ∀ c ∈ b, isBlank c) : ',' ∉ b :=
    fun hcomma => absurd (hb ',' hcomma) (by decide)
  induction h with
  | nil => nofun
  | blank hb _ ih => exact List.forall_mem_cons.mpr ⟨hblank hb, ih hfs⟩
  | part before after hbefore hafter _ ih =>
    obtain ⟨hf, hfs⟩ := List.forall_mem_cons.mp hfs
    refine List.forall_mem_cons.mpr ⟨?_, ih hfs⟩
    simp [hblank hbefore, hblank hafter, Fragment.noComma_written hf]

theorem trimmed_parts : (ps.map trim).filter (· ≠ []) = fs.map Fragment.written := by
  induction h with
  | nil => rfl
  | blank hb _ ih =>
    rw [List.map_cons, (trim_eq_nil_iff _).mpr hb]
    exact ih hfs
  | part before after hbefore hafter _ ih =>
    obtain ⟨hf, hfs⟩ := List.forall_mem_cons.mp hfs
    rw [List.map_cons, trim_append_blanks hafter, trim_blanks_append hbefore,
      (Fragment.trimmed_written hf).trim_eq,
      List.filter_cons_of_pos (by simpa using Fragment.written_ne_nil hf), ih hfs, List.map_cons]

end Spaced

/-! ## 3. Selectors -/

/-- A selector with these parts. -/
def ofParts (ps : List (List Char)) : String := String.ofList (join [','] ps)

def render (fs : List Fragment) : String := ofParts (fs.map Fragment.written)

def Canonical (fs : List Fragment) : Prop := ∀ f ∈ fs, f.Canonical

theorem canonical_classify (selector : String) : Canonical (classify selector) := by
  intro f hf
  obtain ⟨p, hp, rfl⟩ := List.mem_map.mp hf
  obtain ⟨hne, htrimmed, hcomma⟩ := mem_parts hp
  exact Fragment.canonical_ofPart hne htrimmed hcomma

theorem classify_ofParts {fs : List Fragment} {ps : List (List Char)} (h : Spaced fs ps)
    (hfs : Canonical fs) : classify (ofParts ps) = fs := by
  rw [classify, ofParts, String.toList_ofList, parts_join (h.noComma hfs), h.trimmed_parts hfs,
    List.map_map]
  exact (List.map_congr_left fun f hf => Fragment.ofPart_written (hfs f hf)).trans (List.map_id fs)

/-- What selectors are read as is canonical, and canonical lists are read back from their texts,
whatever blanks and blank parts there are. -/
theorem classify_render :
    (∀ s, Canonical (classify s) ∧ classify (render (classify s)) = classify s) ∧
      ∀ fs, Canonical fs →
        classify (render fs) = fs ∧ ∀ ps, Spaced fs ps → classify (ofParts ps) = fs := by
  constructor
  · intro s
    have hcanonical := canonical_classify s
    exact ⟨hcanonical, classify_ofParts (.written _) hcanonical⟩
  · intro fs hfs
    exact ⟨classify_ofParts (.written fs) hfs, fun ps h => classify_ofParts h hfs⟩

/-- A closing bracket in a name, an opening one within brackets, a blank in front of brackets, and
nothing within them. -/
theorem classify_render_brackets :
    let fs : List Fragment :=
      [.element "a]b", .elementAttribute "e\u3000" "x[y", .globalAttribute ""]
    Canonical fs ∧ render fs = "a]b,e\u3000[x[y],[]" ∧ classify "a]b,e\u3000[x[y],[]" = fs ∧
      classify ",\u00a0a]b\n, ,e\u3000[x[y],[]\t," = fs := by
  intro fs
  have hfs : Canonical fs := by
    refine List.forall_mem_cons.mpr ⟨?_, List.forall_mem_cons.mpr ⟨⟨?_, ?_⟩,
      List.forall_mem_cons.mpr ⟨?_, nofun⟩⟩⟩
    · exact ⟨by decide, by decide, by decide, by decide⟩
    · exact ⟨by decide, by decide, by decide, by decide⟩
    · exact ⟨by decide, by decide⟩
    · exact ⟨by decide, by decide⟩
  have hspaced : Spaced fs [[], "\u00a0a]b\n".toList, [' '], "e\u3000[x[y]".toList,
      "[]\t".toList, []] :=
    .blank nofun (.part ['\u00a0'] ['\n'] (by decide) (by decide)
      (.blank (by decide) (.part [] [] nofun nofun
        (.part [] ['\t'] nofun (by decide) (.blank nofun .nil)))))
  obtain ⟨hrender, hspread⟩ := classify_render.2 fs hfs
  have htext : render fs = "a]b,e\u3000[x[y],[]" := by decide
  have hread := hspread _ hspaced
  rw [htext] at hrender
  rw [show ofParts _ = ",\u00a0a]b\n, ,e\u3000[x[y],[]\t," by decide] at hread
  exact ⟨hfs, htext, hrender, hread⟩

end MarkupCatalog.Selector

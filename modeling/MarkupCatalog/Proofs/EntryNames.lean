import MarkupCatalog.Proofs.Entries
import MarkupCatalog.Proofs.MemberAttributes
import MarkupCatalog.Proofs.SelectorTexts

/-!
# Names of entries

Tags and the attributes of members always have names.  The name of an attribute that stands in the
brackets of a selector is the only one that can be empty, so that a catalog has nameless entries
exactly if some brackets hold nothing.
-/

namespace MarkupCatalog

/-! ## 1. Catalogs with names only -/

namespace Catalog

/-- Every tag, every attribute of a tag and every attribute of all elements has a name. -/
structure IsNamed (c : Catalog) : Prop where
  tags : ∀ t ∈ c.tags, t.name ≠ ""
  attributes : ∀ t ∈ c.tags, ∀ a ∈ t.attributes, a.name ≠ ""
  globalAttributes : ∀ a ∈ c.globalAttributes, a.name ≠ ""

theorem mem_tags_concat {cs : List Catalog} {t : Tag} :
    t ∈ (concat cs).tags ↔ ∃ c ∈ cs, t ∈ c.tags := by
  induction cs with
  | nil => simp [concat, empty]
  | cons c cs ih =>
    have htags : (concat (c :: cs)).tags = c.tags ++ (concat cs).tags := by
      rw [concat_cons]
      rfl
    rw [htags, List.mem_append, ih, List.exists_mem_cons_iff]

theorem mem_globalAttributes_concat {cs : List Catalog} {a : Attribute} :
    a ∈ (concat cs).globalAttributes ↔ ∃ c ∈ cs, a ∈ c.globalAttributes := by
  induction cs with
  | nil => simp [concat, empty]
  | cons c cs ih =>
    have hattributes :
        (concat (c :: cs)).globalAttributes =
          c.globalAttributes ++ (concat cs).globalAttributes := by
      rw [concat_cons]
      rfl
    rw [hattributes, List.mem_append, ih, List.exists_mem_cons_iff]

theorem isNamed_concat {cs : List Catalog} : (concat cs).IsNamed ↔ ∀ c ∈ cs, c.IsNamed := by
  constructor
  · intro h c hc
    constructor
    case tags => exact fun t ht => h.tags t (mem_tags_concat.mpr ⟨c, hc, ht⟩)
    case attributes => exact fun t ht => h.attributes t (mem_tags_concat.mpr ⟨c, hc, ht⟩)
    case globalAttributes =>
      exact fun a ha => h.globalAttributes a (mem_globalAttributes_concat.mpr ⟨c, hc, ha⟩)
  · intro h
    constructor
    case tags =>
      intro t ht
      obtain ⟨c, hc, ht⟩ := mem_tags_concat.mp ht
      exact (h c hc).tags t ht
    case attributes =>
      intro t ht
      obtain ⟨c, hc, ht⟩ := mem_tags_concat.mp ht
      exact (h c hc).attributes t ht
    case globalAttributes =>
      intro a ha
      obtain ⟨c, hc, ha⟩ := mem_globalAttributes_concat.mp ha
      exact (h c hc).globalAttributes a ha

theorem isNamed_empty : empty.IsNamed := ⟨nofun, nofun, nofun⟩

end Catalog

/-! ## 2. Parts of selectors -/

namespace Selector

/-- The brackets of the part hold nothing: they are closed at once, or nothing follows them. -/
def IsHollow (part : List Char) : Prop :=
  ∃ name rest, part = name ++ '[' :: rest ∧ '[' ∉ name ∧ (rest = [] ∨ rest.head? = some ']')

theorem bracketed_eq_nil_iff (s : List Char) : bracketed s = [] ↔ s = [] ∨ s.head? = some ']' := by
  cases s with
  | nil => simp [bracketed]
  | cons c s => simp [bracketed, List.takeWhile_cons]

/-- Only the first opening bracket counts. -/
theorem isHollow_append {name : List Char} (h : '[' ∉ name) (rest : List Char) :
    IsHollow (name ++ '[' :: rest) ↔ rest = [] ∨ rest.head? = some ']' := by
  refine ⟨?_, fun hrest => ⟨name, rest, rfl, h, hrest⟩⟩
  rintro ⟨name', rest', heq, h', hrest⟩
  have hspan := congrArg (List.span (· ≠ '[')) heq
  rw [Text.span_ne_append h, Text.span_ne_append h'] at hspan
  obtain ⟨-, htail⟩ := Prod.mk.inj hspan
  rwa [(List.cons.inj htail).2]

namespace Fragment

theorem tagName_ne_empty {part : List Char} (h : (ofPart part).Canonical) (description : String)
    (as : List Attribute) : ∀ t ∈ ((ofPart part).entry description as).tags, t.name ≠ "" := by
  generalize ofPart part = fragment at h
  cases fragment with
  | element name => simpa [entry] using h.nonempty
  | elementAttribute tag attr => simpa [entry] using h.1.nonempty
  | globalAttribute name => simp [entry]

theorem isNamed_entry_iff {part : List Char} (h : (ofPart part).Canonical) (description : String)
    {as : List Attribute} (has : ∀ a ∈ as, a.name ≠ "") :
    ((ofPart part).entry description as).IsNamed ↔ ¬ IsHollow part := by
  have htags := tagName_ne_empty h description as
  by_cases hbracket : '[' ∈ part
  · obtain ⟨name, rest, rfl, hname⟩ := List.eq_append_cons_of_mem hbracket
    rw [isHollow_append hname, ← bracketed_eq_nil_iff]
    rw [ofPart_append hname] at htags ⊢
    have hattr : String.ofList (bracketed rest) ≠ "" ↔ ¬ bracketed rest = [] := by
      rw [Ne, ← String.toList_eq_nil_iff, String.toList_ofList]
    rw [← hattr]
    split at htags
    next hempty =>
      rw [if_pos hempty]
      exact ⟨fun hnamed => hnamed.globalAttributes _ List.mem_cons_self,
        fun hne => ⟨htags, nofun, by simpa [entry] using hne⟩⟩
    next hne =>
      rw [if_neg hne]
      exact ⟨fun hnamed => hnamed.attributes _ List.mem_cons_self _ List.mem_cons_self,
        fun hne => ⟨htags, by simpa [entry] using hne, nofun⟩⟩
  · have hhollow : ¬ IsHollow part := by
      rintro ⟨name, rest, rfl, -⟩
      simp at hbracket
    rw [ofPart_of_not_mem hbracket] at htags ⊢
    exact ⟨fun _ => hhollow, fun _ => ⟨htags, by simpa [entry] using has, nofun⟩⟩

end Fragment
end Selector

/-! ## 3. Extraction -/

namespace Declaration

variable (f : Formatter) {d : Declaration} {s : String}

theorem tagName_ne_empty : ∀ t ∈ (d.extract f).tags, t.name ≠ "" := by
  intro t ht
  unfold extract at ht
  cases hs : d.selector? with
  | none =>
    rw [hs] at ht
    cases ht
  | some s =>
    rw [hs] at ht
    obtain ⟨c, hc, ht⟩ := Catalog.mem_tags_concat.mp ht
    obtain ⟨fragment, hfragment, rfl⟩ := List.mem_map.mp hc
    obtain ⟨part, -, rfl⟩ := List.mem_map.mp hfragment
    exact Selector.Fragment.tagName_ne_empty (Selector.canonical_classify s _ hfragment) _ _ t ht

theorem isNamed_extract_iff :
    (d.extract f).IsNamed ↔
      ∀ s, d.HasSelector s → ∀ part ∈ Selector.parts s.toList, ¬ Selector.IsHollow part := by
  simp only [← selector?_eq_some_iff]
  unfold extract
  cases hs : d.selector? with
  | none => simp [Catalog.isNamed_empty]
  | some s =>
    have has : ∀ a ∈ Member.attributes f [] d.members, a.name ≠ "" :=
      (Member.lists_attributes f d.members).named
    have hpart : ∀ part ∈ Selector.parts s.toList,
        ((Selector.Fragment.ofPart part).entry (d.description f)
          (Member.attributes f [] d.members)).IsNamed ↔ ¬ Selector.IsHollow part := by
      intro part hpart
      have hcanonical := Selector.canonical_classify s _ (List.mem_map_of_mem hpart)
      exact Selector.Fragment.isNamed_entry_iff hcanonical _ has
    show (Catalog.concat _).IsNamed ↔ _
    rw [Catalog.isNamed_concat, Selector.classify, List.map_map, List.forall_mem_map]
    simp only [Option.some.injEq, forall_eq']
    exact forall₂_congr hpart

end Declaration

namespace Tree

/-- Every tag that a tree defines has a name.  All attributes have one exactly if no class has a
selector with brackets that hold nothing. -/
theorem extract_isNamed_iff (f : Formatter) (t : Tree) :
    (∀ tag ∈ (t.extract f).tags, tag.name ≠ "") ∧
      ((t.extract f).IsNamed ↔ ∀ d ∈ t.declarations, ∀ s, d.HasSelector s →
        ∀ part ∈ Selector.parts s.toList, ¬ Selector.IsHollow part) := by
  constructor
  · intro tag htag
    obtain ⟨c, hc, htag⟩ := Catalog.mem_tags_concat.mp htag
    obtain ⟨d, -, rfl⟩ := List.mem_map.mp hc
    exact Declaration.tagName_ne_empty f tag htag
  · rw [extract, Catalog.isNamed_concat, List.forall_mem_map]
    exact forall₂_congr fun d _ => Declaration.isNamed_extract_iff f

/-- Brackets that are closed at once give an attribute without a name. -/
theorem extract_emptyBrackets :
    ((directive "[]").extract (.ofDetail .simple .simple)).globalAttributes = [⟨"", ""⟩] ∧
      ¬ ((directive "[]").extract (.ofDetail .simple .simple)).IsNamed := by
  have hextract :
      ((directive "[]").extract (.ofDetail .simple .simple)).globalAttributes = [⟨"", ""⟩] := by
    rw [extract, declarations, walk_eq_places]
    decide
  refine ⟨hextract, fun h => ?_⟩
  exact h.globalAttributes ⟨"", ""⟩ (by rw [hextract]; exact List.mem_cons_self) rfl

end Tree
end MarkupCatalog

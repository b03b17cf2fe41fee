import MarkupCatalog.Extraction
import MarkupCatalog.Proofs.Catalog
import MarkupCatalog.Proofs.Configuration
import MarkupCatalog.Proofs.Preorder
import MarkupCatalog.Proofs.Texts

/-!
# Entries

What a tree defines, said without the extraction: `Emits` goes over the places of the tree in
source order and gives, for a class with a selector, one entry for every part of the selector, and
nothing for any other place.  The main statement is that the extraction gives these entries and no
others.
-/

namespace MarkupCatalog

/-! ## 1. Selectors -/

namespace Tree

/-- A decorator that makes its class a component or a directive. -/
def MakesElement (t : Tree) : Prop :=
  ∃ e, Decorator.ofTree? t = some e ∧ (e.role = some .component ∨ e.role = some .directive)

def HasKey (key : String) (t : Tree) : Prop :=
  ∃ value, Literal.property? t = some (key, value)

/-- A property with a static key whose value is a string literal. -/
def HasText (key text : String) (t : Tree) : Prop :=
  t.kind = .pair ∧ ∃ name value, t.child? .key = some name ∧ Literal.key? name = some key ∧
    t.child? .value = some value ∧ value.stringValue? = some text

end Tree

/-- The selector of a class: the first decorator that makes the class an element has an object as
its first argument, the last property of the object with the key `selector` is a string literal,
and this string is not blank. -/
inductive Declaration.HasSelector (d : Declaration) (s : String) : Prop
  | intro (others : List Tree) (t : Tree) (rest : List Tree) (e : Decorator) (object : Tree)
      (earlier : List Tree) (p : Tree) (later : List Tree)
      (decorators : d.decoratorNodes = others ++ t :: rest)
      (first : ∀ u ∈ others, ¬ u.MakesElement)
      (decorator : Decorator.ofTree? t = some e)
      (role : e.role = some .component ∨ e.role = some .directive)
      (argument : e.argument? = some object)
      (kind : object.kind = .object)
      (properties : object.children = earlier ++ p :: later)
      (selector : p.HasText "selector" s)
      (last : ∀ q ∈ later, ¬ q.HasKey "selector")
      (notBlank : ∃ c ∈ s.toList, ¬ Text.isBlank c)

theorem Tree.hasKey_iff (key : String) (t : Tree) :
    t.HasKey key ↔ ∃ v, Literal.keyText? t = some (key, v) :=
  Literal.exists_keyText?_iff.symm

theorem Tree.hasText_iff (key text : String) (t : Tree) :
    t.HasText key text ↔ Literal.keyText? t = some (key, some text) := by
  unfold Tree.HasText Literal.keyText?
  constructor
  · rintro ⟨hk, name, value, hname, hkey, hvalue, htext⟩
    rw [hk, hname, hvalue]
    simp only [hkey, htext, Option.map_some]
  · intro h
    split at h
    next hk =>
      split at h
      next name value hname hvalue =>
        obtain ⟨k, hkey, he⟩ := Option.map_eq_some_iff.mp h
        obtain ⟨rfl, htext⟩ := Prod.mk.inj he
        exact ⟨hk, name, value, hname, hkey, hvalue, htext⟩
      next => exact absurd h (by simp)
    next => exact absurd h (by simp)
    next =>
      obtain ⟨k, -, he⟩ := Option.map_eq_some_iff.mp h
      exact absurd (Prod.mk.inj he).2 (by simp)
    next => exact absurd h (by simp)

theorem Decorator.lookupString_configuration_iff (e : Decorator) (key s : String) :
    Literal.lookupString e.configuration key = some s ↔
      ∃ object, e.argument? = some object ∧ object.kind = .object ∧
        ∃ ps p qs, object.children = ps ++ p :: qs ∧ p.HasText key s ∧
          ∀ q ∈ qs, ¬ q.HasKey key := by
  have hentries (cs : List Tree) := Literal.lookupString_entries_eq_some_iff cs key s
  simp only [← Tree.hasText_iff, ← Tree.hasKey_iff] at hentries
  have hnothing : Literal.lookupString [] key ≠ some s := by
    intro h
    exact absurd h (by simp [Literal.lookupString, Literal.lookup])
  unfold Decorator.configuration
  cases e.argument? with
  | none => simp only [hnothing, reduceCtorEq, false_and, exists_false]
  | some object =>
    by_cases hk : object.kind = .object
    · simp only [hk, if_true, hentries, Option.some.injEq, exists_eq_left', true_and]
    · simp only [hk, if_false, hnothing, Option.some.injEq, exists_eq_left', false_and]

theorem Tree.makesElement_iff (t : Tree) :
    t.MakesElement ↔
      ((Decorator.ofTree? t).any fun e => e.role.any Role.forClasses.contains) = true := by
  unfold Tree.MakesElement
  cases Decorator.ofTree? t with
  | none => simp
  | some e =>
    rw [Option.any_some]
    rcases e with ⟨name, (_ | _ | _ | _ | _), arguments⟩ <;> simp [Role.forClasses]

theorem Declaration.element?_eq_some_iff (d : Declaration) (e : Decorator) :
    d.element? = some e ↔
      ∃ others t rest, d.decoratorNodes = others ++ t :: rest ∧ (∀ u ∈ others, ¬ u.MakesElement) ∧
        t.MakesElement ∧ Decorator.ofTree? t = some e := by
  unfold Declaration.element? Declaration.decorators Decorator.find?
  rw [List.find?_filterMap, Option.bind_eq_some_iff]
  simp only [List.find?_eq_some_iff_append, Bool.not_eq_true', ← Bool.not_eq_true,
    ← Tree.makesElement_iff]
  constructor
  · rintro ⟨t, ⟨ht, others, rest, hsplit, hothers⟩, he⟩
    exact ⟨others, t, rest, hsplit, hothers, ht, he⟩
  · rintro ⟨others, t, rest, hsplit, hothers, ht, he⟩
    exact ⟨t, ⟨ht, others, rest, hsplit, hothers⟩, he⟩

theorem Declaration.selector?_eq_some_iff (d : Declaration) (s : String) :
    d.selector? = some s ↔ d.HasSelector s := by
  have hblank : (decide (Text.trim s.toList ≠ []) = true) ↔ ∃ c ∈ s.toList, ¬ Text.isBlank c := by
    rw [decide_eq_true_iff, Ne, Text.trim_eq_nil_iff]
    simp only [not_forall, exists_prop]
  unfold Declaration.selector?
  rw [Option.filter_eq_some_iff, hblank, Option.bind_eq_some_iff]
  constructor
  · -- the decorator that is found is the first one, and the property the last one
    rintro ⟨⟨e, he, hs⟩, hb⟩
    obtain ⟨others, t, rest, hsplit, hothers, ⟨e', he', hrole⟩, ht⟩ :=
      (Declaration.element?_eq_some_iff d e).mp he
    obtain rfl : e' = e := Option.some.inj (he'.symm.trans ht)
    obtain ⟨object, harg, hkind, ps, p, qs, hprops, htext, hlast⟩ :=
      (e'.lookupString_configuration_iff "selector" s).mp hs
    exact ⟨others, t, rest, e', object, ps, p, qs, hsplit, hothers, ht, hrole, harg, hkind, hprops,
      htext, hlast, hb⟩
  · rintro ⟨others, t, rest, e, object, ps, p, qs, hsplit, hothers, ht, hrole, harg, hkind, hprops,
      htext, hlast, hb⟩
    refine ⟨⟨e, ?_, ?_⟩, hb⟩
    · exact (Declaration.element?_eq_some_iff d e).mpr
        ⟨others, t, rest, hsplit, hothers, ⟨e, ht, hrole⟩, ht⟩
    · exact (e.lookupString_configuration_iff "selector" s).mpr
        ⟨object, harg, hkind, ps, p, qs, hprops, htext, hlast⟩

/-! ## 2. Entries in source order -/

namespace Declaration

def description (f : Formatter) (d : Declaration) : String := (d.doc?.map f.describeTag).getD ""

/-- What a class gives for a part of its selector: a tag or an attribute of all elements. -/
def entry (f : Formatter) (d : Declaration) : Selector.Fragment → Tag ⊕ Attribute
  | .element name =>
    .inl { name, description := d.description f, attributes := Member.attributes f [] d.members }
  | .elementAttribute tag attr =>
    .inl { name := tag, description := "", attributes := [⟨attr, d.description f⟩] }
  | .globalAttribute name => .inr ⟨name, d.description f⟩

end Declaration

/-- A class with the selector `s` stands at the cursor. -/
def Cursor.Defines (c : Cursor) (s : String) : Prop :=
  c.focus.kind.isClass = true ∧ (Declaration.mk c).HasSelector s

/-- The entries that a list of places gives, in order. -/
inductive Emits (f : Formatter) : List Cursor → List (Tag ⊕ Attribute) → Prop
  | nil : Emits f [] []
  | skip {c cs es} (none : ∀ s, ¬ c.Defines s) (rest : Emits f cs es) : Emits f (c :: cs) es
  | emit {c cs es s} (defines : c.Defines s) (rest : Emits f cs es) :
      Emits f (c :: cs) ((Selector.classify s).map (Declaration.entry f ⟨c⟩) ++ es)

theorem Emits.unique {f : Formatter} {cs : List Cursor} {es es' : List (Tag ⊕ Attribute)}
    (h : Emits f cs es) (h' : Emits f cs es') : es = es' := by
  induction h generalizing es' with
  | nil => cases h'; rfl
  | skip none rest ih =>
    cases h' with
    | skip none' rest' => exact ih rest'
    | emit defines' rest' => exact absurd defines' (none _)
  | emit defines rest ih =>
    cases h' with
    | skip none' rest' => exact absurd defines (none' _)
    | emit defines' rest' =>
      have hs := (Declaration.selector?_eq_some_iff _ _).mpr defines.2
      have hs' := (Declaration.selector?_eq_some_iff _ _).mpr defines'.2
      rw [Option.some.inj (hs.symm.trans hs'), ih rest']

/-! ## 3. The extraction -/

theorem Selector.Fragment.entry_eq_ofEntries (f : Formatter) (d : Declaration)
    (part : Selector.Fragment) :
    part.entry (d.description f) (Member.attributes f [] d.members) =
      .ofEntries [d.entry f part] := by
  cases part <;> rfl

theorem Declaration.extract_of_selector {f : Formatter} {d : Declaration} {s : String}
    (h : d.selector? = some s) :
    d.extract f = .ofEntries ((Selector.classify s).map (d.entry f)) := by
  have hparts (parts : List Selector.Fragment) :
      Catalog.concat (parts.map fun part =>
          part.entry (d.description f) (Member.attributes f [] d.members)) =
        .ofEntries (parts.map (d.entry f)) := by
    induction parts with
    | nil => rfl
    | cons part parts ih =>
      rw [List.map_cons, List.map_cons, Catalog.concat_cons, ih,
        Selector.Fragment.entry_eq_ofEntries, ← Catalog.ofEntries_append, List.singleton_append]
  unfold Declaration.extract
  rw [h]
  exact hparts _

theorem exists_emits (f : Formatter) (cs : List Cursor) :
    ∃ es, Emits f cs es ∧
      Catalog.concat ((cs.filter fun c => c.focus.kind.isClass).map fun c =>
        (Declaration.mk c).extract f) = .ofEntries es := by
  induction cs with
  | nil => exact ⟨[], .nil, rfl⟩
  | cons c cs ih =>
    obtain ⟨es, hes, hcs⟩ := ih
    -- a place gives entries only if it is a class, and one with a selector
    by_cases hclass : c.focus.kind.isClass = true
    · rw [List.filter_cons, if_pos hclass, List.map_cons, Catalog.concat_cons, hcs]
      cases hs : (Declaration.mk c).selector? with
      | none =>
        have hnone (s : String) : ¬ c.Defines s := by
          rintro ⟨-, h⟩
          rw [← Declaration.selector?_eq_some_iff, hs] at h
          exact absurd h (by simp)
        refine ⟨es, .skip hnone hes, ?_⟩
        unfold Declaration.extract
        rw [hs]
        rfl
      | some s =>
        refine ⟨_, .emit ⟨hclass, (Declaration.selector?_eq_some_iff _ _).mp hs⟩ hes, ?_⟩
        rw [Declaration.extract_of_selector hs, Catalog.ofEntries_append]
    · rw [List.filter_cons, if_neg hclass, hcs]
      exact ⟨es, .skip (fun s h => hclass h.1) hes, rfl⟩

/-- The tags and the attributes that a tree defines are its entries: one for every part of the
selector of every class, in source order, and no others. -/
theorem Tree.extract_emits (f : Formatter) (t : Tree) :
    ∃ es, Emits f (t.places [] [] []) es ∧ (∀ es', Emits f (t.places [] [] []) es' → es' = es) ∧
      (t.extract f).tags = es.filterMap Sum.getLeft? ∧
      (t.extract f).globalAttributes = es.filterMap Sum.getRight? := by
  obtain ⟨es, hes, heq⟩ := exists_emits f (t.places [] [] [])
  have hextract : t.extract f = .ofEntries es := by
    rw [← heq, Tree.extract, Tree.declarations, Tree.walk_eq_places, List.map_map]
    rfl
  refine ⟨es, hes, fun es' h => h.unique hes, ?_, ?_⟩
  · rw [hextract]; rfl
  · rw [hextract]; rfl

end MarkupCatalog

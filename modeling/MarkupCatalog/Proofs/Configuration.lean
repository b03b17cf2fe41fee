import Mathlib.Data.List.Basic
import MarkupCatalog.Decorator.Basic

/-!
# Configurations

What the extraction looks up in the object that is the argument of a decorator: the string that the
last property with a key holds.  Only the keys of the properties and the string literals among their
values count; `Literal.keyText?` reads these two off a property.
-/

namespace MarkupCatalog

namespace Literal

/-! ## 1. Values -/

theorem string?_ofTree (t : Tree) : (ofTree t).string? = t.stringValue? := by
  obtain ⟨k, l, s, cs⟩ := t
  unfold ofTree
  split
  next => rfl
  next => cases (Tree.node .templateString l s cs).stringValue? <;> rfl
  next => cases number? s <;> rfl
  case h_10 hstring htemplate _ _ _ _ _ _ _ =>
    unfold Tree.stringValue?
    split
    next h => exact absurd h hstring
    next h => exact absurd h htemplate
    next => rfl
  all_goals rfl

theorem partValue?_eq (l : Label) (cs : List Tree) :
    partValue? l cs = (cs.find? fun c => c.label == some l).map ofTree := by
  induction cs with
  | nil => rfl
  | cons c cs ih =>
    rw [partValue?, List.find?_cons]
    cases c.label == some l with
    | true => rfl
    | false => exact ih

/-! ## 2. Properties -/

theorem entries_eq_filterMap (cs : List Tree) : entries cs = cs.filterMap property? := by
  induction cs with
  | nil => rfl
  | cons c cs ih =>
    rw [entries, List.filterMap_cons, ih]
    cases property? c <;> rfl

/-- The key of a property, and its value if that is a string. -/
def keyText? (t : Tree) : Option (String × Option String) :=
  match t.kind with
  | .pair =>
    match t.child? .key, t.child? .value with
    | some key, some value => (key? key).map fun k => (k, value.stringValue?)
    | _, _ => none
  | .shorthandProperty => some (t.text, none)
  | .methodDefinition => ((t.child? .name).bind key?).map fun k => (k, none)
  | _ => none

theorem keyText?_eq (t : Tree) :
    keyText? t = (property? t).map fun e => (e.1, e.2.string?) := by
  obtain ⟨k, l, s, cs⟩ := t
  unfold property?
  split
  next =>
    rw [partValue?_eq]
    simp only [keyText?, Tree.child?, Tree.kind_node, Tree.children_node]
    cases cs.find? fun c => c.label == some Label.key with
    | none => rfl
    | some key =>
      cases cs.find? fun c => c.label == some Label.value with
      | none => rfl
      | some value =>
        simp only [Option.map_some, Option.map_map, ← string?_ofTree]
        rfl
  next => rfl
  next => rw [Option.map_map]; rfl
  next hpair hshorthand hmethod =>
    unfold keyText?
    split
    next h => exact absurd h hpair
    next h => exact absurd h hshorthand
    next h => exact absurd h hmethod
    next => rfl

theorem keyText?_eq_some_iff {p : Tree} {key : String} {v : Option String} :
    keyText? p = some (key, v) ↔ ∃ value, property? p = some (key, value) ∧ value.string? = v := by
  rw [keyText?_eq, Option.map_eq_some_iff]
  constructor
  · rintro ⟨⟨k, value⟩, hp, he⟩
    obtain ⟨rfl, hv⟩ := Prod.mk.inj he
    exact ⟨value, hp, hv⟩
  · rintro ⟨value, hp, rfl⟩
    exact ⟨(key, value), hp, rfl⟩

theorem exists_keyText?_iff {p : Tree} {key : String} :
    (∃ v, keyText? p = some (key, v)) ↔ ∃ value, property? p = some (key, value) := by
  constructor
  · rintro ⟨v, h⟩
    obtain ⟨value, hp, -⟩ := keyText?_eq_some_iff.mp h
    exact ⟨value, hp⟩
  · rintro ⟨value, hp⟩
    exact ⟨value.string?, keyText?_eq_some_iff.mpr ⟨value, hp, rfl⟩⟩

/-! ## 3. The last entry with a key -/

theorem lookup_append (es fs : List (String × Literal)) (key : String) :
    lookup (es ++ fs) key = (lookup fs key).or (lookup es key) := by
  rw [lookup, List.reverse_append, List.find?_append, Option.map_or]
  rfl

theorem lookup_singleton (k key : String) (v : Literal) :
    lookup [(k, v)] key = if k = key then some v else none := by
  by_cases h : k = key
  · rw [if_pos h, lookup, List.reverse_singleton, List.find?_cons_of_pos (by simpa using h)]
    rfl
  · rw [if_neg h, lookup, List.reverse_singleton, List.find?_cons_of_neg (by simpa using h)]
    rfl

theorem lookup_eq_none_iff {es : List (String × Literal)} {key : String} :
    lookup es key = none ↔ ∀ e ∈ es, e.1 ≠ key := by
  simp [lookup]

theorem lookup_eq_some_iff {es : List (String × Literal)} {key : String} {v : Literal} :
    lookup es key = some v ↔
      ∃ before after, es = before ++ (key, v) :: after ∧ ∀ e ∈ after, e.1 ≠ key := by
  constructor
  · -- the entries are searched from the last one on
    intro h
    obtain ⟨⟨k, v'⟩, he, rfl⟩ := Option.map_eq_some_iff.mp h
    obtain ⟨hkey, after, before, hsplit, hafter⟩ := List.find?_eq_some_iff_append.mp he
    obtain rfl : k = key := by simpa using hkey
    refine ⟨before.reverse, after.reverse, ?_, ?_⟩
    · rw [← List.reverse_reverse es, hsplit]
      simp
    · intro e hmem
      simpa using hafter e (List.mem_reverse.mp hmem)
  · rintro ⟨before, after, rfl, hafter⟩
    rw [lookup_append, ← List.singleton_append, lookup_append, lookup_eq_none_iff.mpr hafter,
      lookup_singleton, if_pos rfl]
    rfl

theorem string?_eq_some_iff {v : Literal} {s : String} : v.string? = some s ↔ v = .string s := by
  cases v <;> simp [string?]

theorem lookupString_eq_some_iff {es : List (String × Literal)} {key s : String} :
    lookupString es key = some s ↔ lookup es key = some (.string s) := by
  simp [lookupString, Option.bind_eq_some_iff, string?_eq_some_iff]

/-! ## 4. The last property with a key -/

theorem mem_entries_iff {cs : List Tree} {e : String × Literal} :
    e ∈ entries cs ↔ ∃ p ∈ cs, property? p = some e := by
  rw [entries_eq_filterMap, List.mem_filterMap]

/-- No entry has a key that no property has. -/
theorem forall_entries_ne_iff {cs : List Tree} {key : String} :
    (∀ e ∈ entries cs, e.1 ≠ key) ↔ ∀ p ∈ cs, ¬ ∃ v, property? p = some (key, v) := by
  constructor
  · rintro h p hp ⟨v, hv⟩
    exact h (key, v) (mem_entries_iff.mpr ⟨p, hp, hv⟩) rfl
  · rintro h ⟨k, v⟩ he rfl
    obtain ⟨p, hp, hv⟩ := mem_entries_iff.mp he
    exact h p hp ⟨v, hv⟩

/-- The value that is found is that of a property with the key behind which no other property has
it. -/
theorem lookup_entries_eq_some_iff {cs : List Tree} {key : String} {v : Literal} :
    lookup (entries cs) key = some v ↔
      ∃ ps p qs, cs = ps ++ p :: qs ∧ property? p = some (key, v) ∧
        ∀ q ∈ qs, ¬ ∃ w, property? q = some (key, w) := by
  rw [lookup_eq_some_iff, entries_eq_filterMap]
  constructor
  · rintro ⟨before, after, hsplit, hlast⟩
    obtain ⟨ps, rest, rfl, -, hrest⟩ := List.filterMap_eq_append_iff.mp hsplit
    obtain ⟨inert, p, qs, rfl, -, hp, hqs⟩ := List.filterMap_eq_cons_iff.mp hrest
    rw [← hqs, ← entries_eq_filterMap, forall_entries_ne_iff] at hlast
    exact ⟨ps ++ inert, p, qs, by rw [List.append_assoc], hp, hlast⟩
  · rintro ⟨ps, p, qs, rfl, hp, hlast⟩
    refine ⟨entries ps, entries qs, ?_, forall_entries_ne_iff.mpr hlast⟩
    rw [List.filterMap_append, List.filterMap_cons, hp, entries_eq_filterMap, entries_eq_filterMap]

theorem lookupString_entries (cs : List Tree) (key : String) :
    lookupString (entries cs) key =
      ((cs.filterMap keyText?).reverse.find? fun e => e.1 == key).bind Prod.snd := by
  have h : cs.filterMap keyText? = (entries cs).map fun e => (e.1, e.2.string?) := by
    rw [entries_eq_filterMap, List.map_filterMap]
    exact List.filterMap_congr fun c _ => keyText?_eq c
  rw [h, ← List.map_reverse, List.find?_map, lookupString, lookup, Option.bind_map,
    Option.bind_map]
  rfl

/-- The string that is found stands in a property with the key behind which no other property has
it. -/
theorem lookupString_entries_eq_some_iff (cs : List Tree) (key s : String) :
    lookupString (entries cs) key = some s ↔
      ∃ ps p qs, cs = ps ++ p :: qs ∧ keyText? p = some (key, some s) ∧
        ∀ q ∈ qs, ¬ ∃ v, keyText? q = some (key, v) := by
  simp only [exists_keyText?_iff]
  simp only [lookupString_eq_some_iff, lookup_entries_eq_some_iff, keyText?_eq_some_iff,
    string?_eq_some_iff, exists_eq_right]

end Literal
end MarkupCatalog

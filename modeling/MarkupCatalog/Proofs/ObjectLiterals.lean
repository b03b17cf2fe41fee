import MarkupCatalog.Proofs.Configuration

/-!
# Object literals

A configuration answers for its keys as the object literal does that it was read from.  `Tree.Sets`
says what a property sets, by the three ways to write one, and `Tree.Decides` which property has the
last word on a key.  `Literal.Reflects` collects what the entries of an object have to do with its
properties.  The main statement is that the entries of every object in a configuration, at the end
of any path through arrays and objects, reflect the object that the same path leads to in the
source.
-/

namespace MarkupCatalog

/-! ## 1. Properties -/

namespace Tree

/-- The node is a name with the static key `k`: an identifier or a number has its text as the key,
and a string its value. -/
inductive NamesKey (t : Tree) : String → Prop
  | identifier (kind : t.kind = .propertyIdentifier) : NamesKey t t.text
  | number (kind : t.kind = .number) : NamesKey t t.text
  | string {s} (kind : t.kind = .string) (value : t.stringValue? = some s) : NamesKey t s

/-- The node is a property that sets the static key `k` to `v`.  Methods and shorthands have their
source text for a value. -/
inductive Sets (p : Tree) : String → Literal → Prop
  | pair {name value k} (kind : p.kind = .pair) (named : p.child? .key = some name)
      (static : name.NamesKey k) (valued : p.child? .value = some value) :
      Sets p k (Literal.ofTree value)
  | shorthand (kind : p.kind = .shorthandProperty) : Sets p p.text (.expression p.text)
  | method {name k} (kind : p.kind = .methodDefinition) (named : p.child? .name = some name)
      (static : name.NamesKey k) : Sets p k (.expression p.text)

/-- The node is a property with a static key. -/
def IsStatic (p : Tree) : Prop := ∃ k v, p.Sets k v

/-- No identifier, number or string, but a name in brackets or a private one. -/
def IsComputed (t : Tree) : Prop :=
  t.kind ≠ .propertyIdentifier ∧ t.kind ≠ .number ∧ t.kind ≠ .string

/-- The ways not to set a static key: to be no property (a comment, a spread or punctuation), or a
property that lacks its key or its value, or one with a computed key. -/
inductive IsInert (p : Tree) : Prop
  | other (pair : p.kind ≠ .pair) (shorthand : p.kind ≠ .shorthandProperty)
      (method : p.kind ≠ .methodDefinition)
  | keyless (kind : p.kind = .pair) (named : p.child? .key = none)
  | valueless (kind : p.kind = .pair) (valued : p.child? .value = none)
  | computed {name} (kind : p.kind = .pair) (named : p.child? .key = some name)
      (computed : name.IsComputed)
  | nameless (kind : p.kind = .methodDefinition) (named : p.child? .name = none)
  | computedMethod {name} (kind : p.kind = .methodDefinition) (named : p.child? .name = some name)
      (computed : name.IsComputed)

/-- Among the properties `ps`, `p` is the last one with the static key `k`. -/
inductive Decides (ps : List Tree) (k : String) (p : Tree) : Prop
  | intro (before after : List Tree) (split : ps = before ++ p :: after) (has : ∃ v, p.Sets k v)
      (last : ∀ q ∈ after, ∀ v, ¬ q.Sets k v)

/-- A string literal, or a template without substitutions. -/
def IsText (t : Tree) : Prop :=
  t.kind = .string ∨ t.kind = .templateString ∧ ∀ c ∈ t.children, c.kind ≠ .templateSubstitution

theorem key?_eq_some_iff {t : Tree} {k : String} : Literal.key? t = some k ↔ t.NamesKey k := by
  unfold Literal.key?
  constructor
  · intro h
    split at h
    next hk => exact Option.some.inj h ▸ .identifier hk
    next hk => exact Option.some.inj h ▸ .number hk
    next hk => exact .string hk h
    next => exact absurd h (by simp)
  · intro h
    cases h with
    | identifier hk => rw [hk]
    | number hk => rw [hk]
    | string hk value => rw [hk]; exact value

theorem property?_eq_some_iff {p : Tree} {k : String} {v : Literal} :
    Literal.property? p = some (k, v) ↔ p.Sets k v := by
  constructor
  · intro h
    obtain ⟨kind, label, text, cs⟩ := p
    unfold Literal.property? at h
    split at h
    next =>
      rw [Literal.partValue?_eq] at h
      split at h
      next name w hname hw =>
        obtain ⟨value, hvalue, rfl⟩ := Option.map_eq_some_iff.mp hw
        obtain ⟨k', hkey, hkv⟩ := Option.map_eq_some_iff.mp h
        cases hkv
        exact .pair rfl hname (key?_eq_some_iff.mp hkey) hvalue
      next => exact absurd h (by simp)
    next =>
      cases h
      exact .shorthand rfl
    next =>
      obtain ⟨k', hkey, hkv⟩ := Option.map_eq_some_iff.mp h
      obtain ⟨name, hname, hspells⟩ := Option.bind_eq_some_iff.mp hkey
      cases hkv
      exact .method rfl hname (key?_eq_some_iff.mp hspells)
    next => exact absurd h (by simp)
  · intro h
    obtain ⟨kind, label, text, cs⟩ := p
    cases h with
    | @pair name value _ hk named static valued =>
      cases hk
      have hvalue : Literal.partValue? .value cs = some (Literal.ofTree value) := by
        rw [Literal.partValue?_eq]
        exact congrArg (Option.map Literal.ofTree) valued
      unfold Literal.property?
      simp only [named, hvalue, key?_eq_some_iff.mpr static, Option.map_some]
    | shorthand hk =>
      cases hk
      rfl
    | method hk named static =>
      cases hk
      unfold Literal.property?
      simp only [named, Option.bind_some, key?_eq_some_iff.mpr static, Option.map_some, text_node]

theorem isStatic_iff {p : Tree} : p.IsStatic ↔ (Literal.property? p).isSome = true := by
  simp only [IsStatic, ← property?_eq_some_iff, Option.isSome_iff_exists, Prod.exists]

instance (p : Tree) : Decidable p.IsStatic := decidable_of_iff' _ isStatic_iff

theorem namesKey_or_isComputed (t : Tree) : (∃ k, t.NamesKey k) ∨ t.IsComputed := by
  by_cases hidentifier : t.kind = .propertyIdentifier
  · exact .inl ⟨_, .identifier hidentifier⟩
  by_cases hnumber : t.kind = .number
  · exact .inl ⟨_, .number hnumber⟩
  by_cases hstring : t.kind = .string
  · have hvalue : t.stringValue? = some (String.ofList (t.children.flatMap stringPart)) := by
      rw [stringValue?, hstring]
    exact .inl ⟨_, .string hstring hvalue⟩
  · exact .inr ⟨hidentifier, hnumber, hstring⟩

theorem IsComputed.not_namesKey {t : Tree} (h : t.IsComputed) (k : String) : ¬ t.NamesKey k := by
  intro hk
  cases hk with
  | identifier kind => exact h.1 kind
  | number kind => exact h.2.1 kind
  | string kind => exact h.2.2 kind

theorem isInert_iff {p : Tree} : p.IsInert ↔ ¬ p.IsStatic := by
  constructor
  · -- each way not to set a key denies the kind, a part or the name that each form asks for
    rintro h ⟨k, v, hsets⟩
    cases h <;> cases hsets <;> simp_all [IsComputed.not_namesKey]
  · intro h
    by_cases hpair : p.kind = .pair
    · cases hname : p.child? .key with
      | none => exact .keyless hpair hname
      | some name =>
        cases hvalue : p.child? .value with
        | none => exact .valueless hpair hvalue
        | some value =>
          obtain ⟨k, hk⟩ | hcomputed := name.namesKey_or_isComputed
          · exact absurd ⟨k, _, .pair hpair hname hk hvalue⟩ h
          · exact .computed hpair hname hcomputed
    by_cases hshorthand : p.kind = .shorthandProperty
    · exact absurd ⟨_, _, .shorthand hshorthand⟩ h
    by_cases hmethod : p.kind = .methodDefinition
    · cases hname : p.child? .name with
      | none => exact .nameless hmethod hname
      | some name =>
        obtain ⟨k, hk⟩ | hcomputed := name.namesKey_or_isComputed
        · exact absurd ⟨k, _, .method hmethod hname hk⟩ h
        · exact .computedMethod hmethod hname hcomputed
    exact .other hpair hshorthand hmethod

theorem Sets.eq_ofTree {p value : Tree} {k : String} {v : Literal} (h : p.Sets k v)
    (kind : p.kind = .pair) (valued : p.child? .value = some value) : v = Literal.ofTree value := by
  cases h with
  | pair kind' named static valued' => rw [Option.some.inj (valued.symm.trans valued')]
  | shorthand kind' => cases kind.symm.trans kind'
  | method kind' => cases kind.symm.trans kind'

theorem Decides.sets {ps : List Tree} {k : String} {p : Tree} (h : Decides ps k p) :
    ∃ v, p.Sets k v := by
  obtain ⟨-, -, -, hsets, -⟩ := h
  exact hsets

theorem stringValue?_isSome_iff {t : Tree} : t.stringValue?.isSome = true ↔ t.IsText := by
  unfold stringValue? IsText
  split
  next hk => simp [hk]
  next hk => simp [hk]
  next hstring htemplate =>
    constructor
    · intro h
      exact absurd h (by simp)
    · rintro (h | ⟨h, -⟩)
      · exact absurd h hstring
      · exact absurd h htemplate

end Tree

namespace Literal

/-! ## 2. Entries -/

theorem entries_append (ps qs : List Tree) : entries (ps ++ qs) = entries ps ++ entries qs := by
  rw [entries_eq_filterMap, entries_eq_filterMap, entries_eq_filterMap, List.filterMap_append]

theorem entries_cons_of_sets {p : Tree} {k : String} {v : Literal} (h : p.Sets k v)
    (ps : List Tree) : entries (p :: ps) = (k, v) :: entries ps := by
  rw [entries, Tree.property?_eq_some_iff.mpr h]
  rfl

theorem entries_cons_of_isInert {p : Tree} (h : p.IsInert) (ps : List Tree) :
    entries (p :: ps) = entries ps := by
  rw [Tree.isInert_iff, Tree.isStatic_iff, Bool.not_eq_true, Option.isSome_eq_false_iff,
    Option.isNone_iff_eq_none] at h
  rw [entries, h]
  rfl

theorem length_entries (ps : List Tree) : (entries ps).length = ps.countP fun p => p.IsStatic := by
  simp only [entries_eq_filterMap, List.length_filterMap_eq_countP, Tree.isStatic_iff,
    Bool.decide_eq_true]

theorem lookup_entries_eq_none_iff {ps : List Tree} {k : String} :
    lookup (entries ps) k = none ↔ ∀ p ∈ ps, ∀ v, ¬ p.Sets k v := by
  simp only [lookup_eq_none_iff, forall_entries_ne_iff, Tree.property?_eq_some_iff, not_exists]

/-- The last property with a key decides its value. -/
theorem lookup_entries_iff_decides {ps : List Tree} {k : String} {v : Literal} :
    lookup (entries ps) k = some v ↔ ∃ p, p.Sets k v ∧ Tree.Decides ps k p := by
  simp only [lookup_entries_eq_some_iff, Tree.property?_eq_some_iff, not_exists]
  constructor
  · rintro ⟨before, p, after, hsplit, hsets, hlast⟩
    exact ⟨p, hsets, before, after, hsplit, ⟨v, hsets⟩, hlast⟩
  · rintro ⟨p, hsets, before, after, hsplit, -, hlast⟩
    exact ⟨before, p, after, hsplit, hsets, hlast⟩

/-- Only a pair can set a key to a string, and its value then is a text. -/
theorem lookupString_entries_isSome_iff {ps : List Tree} {k : String} :
    (lookupString (entries ps) k).isSome = true ↔
      ∃ p value, Tree.Decides ps k p ∧ p.kind = .pair ∧ p.child? .value = some value ∧
        value.IsText := by
  simp only [Option.isSome_iff_exists, lookupString_eq_some_iff, lookup_entries_iff_decides]
  constructor
  · -- the value of a shorthand or of a method is source text, and no string
    rintro ⟨s, p, hsets, hdecides⟩
    generalize hv : Literal.string s = v at hsets
    cases hsets with
    | @pair name value _ kind named static valued =>
      refine ⟨p, value, hdecides, kind, valued, ?_⟩
      rw [← Tree.stringValue?_isSome_iff, ← string?_ofTree, ← hv]
      rfl
    | shorthand => cases hv
    | method => cases hv
  · rintro ⟨p, value, hdecides, kind, valued, htext⟩
    rw [← Tree.stringValue?_isSome_iff, ← string?_ofTree, Option.isSome_iff_exists] at htext
    obtain ⟨s, hs⟩ := htext
    obtain ⟨v, hsets⟩ := hdecides.sets
    obtain rfl := hsets.eq_ofTree kind valued
    rw [string?_eq_some_iff.mp hs] at hsets
    exact ⟨s, p, hsets, hdecides⟩

/-- What the entries of an object have to do with its children, among which its properties stand. -/
structure Reflects (es : List (String × Literal)) (ps : List Tree) : Prop where
  get (k : String) (v : Literal) : lookup es k = some v ↔ ∃ p, p.Sets k v ∧ Tree.Decides ps k p
  absent (k : String) : lookup es k = none ↔ ∀ p ∈ ps, ∀ v, ¬ p.Sets k v
  string (k s : String) : lookupString es k = some s ↔ lookup es k = some (.string s)
  isText (k : String) : (lookupString es k).isSome = true ↔
    ∃ p value, Tree.Decides ps k p ∧ p.kind = .pair ∧ p.child? .value = some value ∧ value.IsText
  size : es.length = ps.countP fun p => p.IsStatic
  /-- One more property behind all others. -/
  append {before after : List Tree} {p : Tree} {k : String} {v : Literal}
    (split : ps = before ++ after) (last : ∀ q ∈ after, q.IsInert) (sets : p.Sets k v) :
    lookup (entries (before ++ p :: after)) k = some v ∧
      ∀ k' ≠ k, lookup (entries (before ++ p :: after)) k' = lookup es k'
  /-- One more child that is no property with a static key. -/
  inert {before after : List Tree} {p : Tree} (split : ps = before ++ after) (inert : p.IsInert)
    (k : String) : lookup (entries (before ++ p :: after)) k = lookup es k

theorem entries_eq_nil_of_isInert {ps : List Tree} (h : ∀ p ∈ ps, p.IsInert) : entries ps = [] := by
  induction ps with
  | nil => rfl
  | cons p ps ih =>
    rw [entries_cons_of_isInert (h p List.mem_cons_self)]
    exact ih fun q hq => h q (List.mem_cons_of_mem p hq)

theorem reflects_entries (ps : List Tree) : Reflects (entries ps) ps where
  get k v := lookup_entries_iff_decides
  absent k := lookup_entries_eq_none_iff
  string k s := lookupString_eq_some_iff
  isText k := lookupString_entries_isSome_iff
  size := length_entries ps
  append := by
    rintro before after p k v rfl hlast hsets
    -- nothing behind the new property has an entry, so that its entry is the last one
    have hmore (k' : String) : lookup (entries (before ++ p :: after)) k' =
        (lookup [(k, v)] k').or (lookup (entries (before ++ after)) k') := by
      rw [entries_append, entries_append, entries_cons_of_sets hsets,
        entries_eq_nil_of_isInert hlast, lookup_append, List.append_nil]
    constructor
    · rw [hmore, lookup_singleton, if_pos rfl]
      rfl
    · intro k' hne
      rw [hmore, lookup_singleton, if_neg hne.symm]
      rfl
  inert := by
    rintro before after p rfl hinert k
    rw [entries_append, entries_cons_of_isInert hinert, ← entries_append]

/-! ## 3. Paths -/

/-- A step from a value to one of its parts. -/
inductive Step where
  | item (i : Nat)
  | key (k : String)

/-- The value at the end of a path through arrays and objects. -/
def at? : List Step → Literal → Option Literal
  | [], v => some v
  | .item i :: path, .array vs => vs[i]?.bind (at? path)
  | .key k :: path, .object es => (lookup es k).bind (at? path)
  | _ :: _, _ => none

end Literal

/-- The path goes from an expression to one in it: to an item of an array, comments not counted, or
to the value of the pair that decides a key of an object. -/
inductive Tree.Leads : Tree → List Literal.Step → Tree → Prop
  | here (t : Tree) : Leads t [] t
  | item {t c o : Tree} {i : Nat} {path} (kind : t.kind = .array)
      (item : (t.children.filter fun c => c.isNamed && !c.isComment)[i]? = some c)
      (rest : Leads c path o) : Leads t (.item i :: path) o
  | value {t p c o : Tree} {k : String} {path} (kind : t.kind = .object)
      (decides : Tree.Decides t.children k p) (pair : p.kind = .pair)
      (valued : p.child? .value = some c) (rest : Leads c path o) : Leads t (.key k :: path) o

namespace Literal

theorem items_eq_map (ts : List Tree) :
    items ts = (ts.filter fun c => c.isNamed && !c.isComment).map ofTree := by
  induction ts with
  | nil => rfl
  | cons t ts ih =>
    rw [items, List.filter_cons]
    split
    next => rw [List.map_cons, ih]
    next => exact ih

theorem ofTree_eq_array_iff {t : Tree} {vs : List Literal} :
    ofTree t = .array vs ↔ t.kind = .array ∧ items t.children = vs := by
  obtain ⟨kind, label, text, cs⟩ := t
  unfold ofTree
  -- strings and numbers may fall back on their text, so their cases split once more
  split <;> (try split) <;> simp_all

theorem ofTree_eq_object_iff {t : Tree} {es : List (String × Literal)} :
    ofTree t = .object es ↔ t.kind = .object ∧ entries t.children = es := by
  obtain ⟨kind, label, text, cs⟩ := t
  unfold ofTree
  split <;> (try split) <;> simp_all

theorem at?_item_eq_some_iff {i : Nat} {path : List Step} {v w : Literal} :
    at? (.item i :: path) v = some w ↔
      ∃ vs u, v = .array vs ∧ vs[i]? = some u ∧ at? path u = some w := by
  cases v <;> simp [at?, Option.bind_eq_some_iff]

theorem at?_key_eq_some_iff {k : String} {path : List Step} {v w : Literal} :
    at? (.key k :: path) v = some w ↔
      ∃ es u, v = .object es ∧ lookup es k = some u ∧ at? path u = some w := by
  cases v <;> simp [at?, Option.bind_eq_some_iff]

theorem at?_expression {path : List Step} {text : String} {es : List (String × Literal)} :
    at? path (.expression text) ≠ some (.object es) := by
  cases path with
  | nil => simp [at?]
  | cons step path => cases step <;> simp [at?]

theorem at?_ofTree {t o : Tree} {path : List Step} (h : t.Leads path o) :
    at? path (ofTree t) = some (ofTree o) := by
  -- the path takes the same steps through the source and through its value
  induction h with
  | here t => rfl
  | item kind item rest ih =>
    rw [ofTree_eq_array_iff.mpr ⟨kind, rfl⟩, at?, items_eq_map, List.getElem?_map, item]
    exact ih
  | value kind decides pair valued rest ih =>
    obtain ⟨v, hsets⟩ := decides.sets
    have hlookup := lookup_entries_iff_decides.mpr ⟨_, hsets, decides⟩
    rw [ofTree_eq_object_iff.mpr ⟨kind, rfl⟩, at?, hlookup, hsets.eq_ofTree pair valued]
    exact ih

/-- An object in a value was read from an object in the source. -/
theorem exists_leads {t : Tree} {path : List Step} {es : List (String × Literal)}
    (h : at? path (ofTree t) = some (.object es)) :
    ∃ o, t.Leads path o ∧ o.kind = .object ∧ entries o.children = es := by
  induction path generalizing t with
  | nil => exact ⟨t, .here t, ofTree_eq_object_iff.mp (Option.some.inj h)⟩
  | cons step path ih =>
    cases step with
    | item i =>
      obtain ⟨vs, u, harray, hu, hrest⟩ := at?_item_eq_some_iff.mp h
      obtain ⟨kind, rfl⟩ := ofTree_eq_array_iff.mp harray
      rw [items_eq_map, List.getElem?_map] at hu
      obtain ⟨c, hc, rfl⟩ := Option.map_eq_some_iff.mp hu
      obtain ⟨o, hled, ho⟩ := ih hrest
      exact ⟨o, .item kind hc hled, ho⟩
    | key k =>
      obtain ⟨fs, u, hobject, hu, hrest⟩ := at?_key_eq_some_iff.mp h
      obtain ⟨kind, rfl⟩ := ofTree_eq_object_iff.mp hobject
      obtain ⟨p, hsets, hdecides⟩ := lookup_entries_iff_decides.mp hu
      -- only the value of a pair can hold an object
      cases hsets with
      | pair hpair named static valued =>
        obtain ⟨o, hled, ho⟩ := ih hrest
        exact ⟨o, .value kind hdecides hpair valued hled, ho⟩
      | shorthand => exact absurd hrest at?_expression
      | method => exact absurd hrest at?_expression

end Literal

/-! ## 4. Configurations -/

namespace Decorator

theorem ofTree_argument {d : Decorator} {t : Tree} (argument : d.argument? = some t)
    (object : t.kind = .object) : Literal.ofTree t = .object d.configuration := by
  rw [Literal.ofTree_eq_object_iff, configuration, argument]
  exact ⟨object, (if_pos object).symm⟩

/-- A configuration has an object at the end of a path just where the path leads to an object in
the argument of the decorator, and the entries of the one reflect the properties of the other. -/
theorem configuration_reflects {d : Decorator} {t : Tree} (argument : d.argument? = some t)
    (object : t.kind = .object) (path : List Literal.Step) :
    (∀ o, t.Leads path o → o.kind = .object →
      ∃ es, Literal.at? path (.object d.configuration) = some (.object es) ∧
        Literal.Reflects es o.children) ∧
    ∀ es, Literal.at? path (.object d.configuration) = some (.object es) →
      ∃ o, t.Leads path o ∧ o.kind = .object ∧ Literal.Reflects es o.children := by
  rw [← ofTree_argument argument object]
  constructor
  · intro o hled ho
    refine ⟨Literal.entries o.children, ?_, Literal.reflects_entries _⟩
    rw [Literal.at?_ofTree hled, Literal.ofTree_eq_object_iff.mpr ⟨ho, rfl⟩]
  · intro es hes
    obtain ⟨o, hled, ho, rfl⟩ := Literal.exists_leads hes
    exact ⟨o, hled, ho, Literal.reflects_entries _⟩

section Example

/-- The node of `{ a: 'y', ...c, a: f() }`. -/
def shadowing : Tree :=
  .node .object none "" [
    .leaf .token "\x7b", pair "a" (.node .string (some .value) "" [.leaf .stringFragment "y"]),
    .leaf .token ",", .leaf .expression "...c", .leaf .token ",",
    pair "a" (.node .callExpression (some .value) "f()" []), .leaf .token "\x7d"]
where
  pair (key : String) (value : Tree) : Tree :=
    .node .pair none "" [.node .propertyIdentifier (some .key) key [], .leaf .token ":", value]

/-- The node of `{ b: [1, { a: 'y', ...c, a: f() }] }`. -/
def nesting : Tree :=
  .node .object none "" [
    shadowing.pair "b" (.node .array (some .value) "" [
      .leaf .token "[", .leaf .number "1", .leaf .token ",", shadowing, .leaf .token "]"])]

theorem configuration_reflects_shadowing :
    ∃ d : Decorator, d.argument? = some nesting ∧ nesting.kind = .object ∧
      ∃ es, Literal.at? [.key "b", .item 1] (.object d.configuration) = some (.object es) ∧
        Literal.lookup es "a" = some (.expression "f()") ∧ Literal.lookupString es "a" = none ∧
        es.length = 2 := by
  let d : Decorator :=
    { name := "Component"
      role := some .component
      arguments := some (.node .arguments none "" [.leaf .token "(", nesting, .leaf .token ")"]) }
  have hargument : d.argument? = some nesting := rfl
  have hled : nesting.Leads [.key "b", .item 1] shadowing := by
    refine .value rfl ⟨[], [], rfl, ?_, by simp⟩ rfl rfl (.item rfl rfl (.here _))
    exact ⟨_, .pair rfl rfl (.identifier rfl) rfl⟩
  obtain ⟨es, hes, hreflects⟩ :=
    (configuration_reflects hargument rfl [.key "b", .item 1]).1 shadowing hled rfl
  have hget : Literal.lookup es "a" = some (.expression "f()") := by
    -- nothing but a brace stands behind the second pair
    let call : Tree := .node .callExpression (some .value) "f()" []
    have hsets : (shadowing.pair "a" call).Sets "a" (.ofTree call) :=
      .pair rfl rfl (.identifier rfl) rfl
    refine (hreflects.get _ _).mpr ⟨_, hsets, shadowing.children.take 5, _, rfl, ⟨_, hsets⟩, ?_⟩
    intro q hq v hq'
    obtain rfl := List.mem_singleton.mp hq
    exact Tree.isInert_iff.mp (.other (by decide) (by decide) (by decide)) ⟨_, _, hq'⟩
  refine ⟨d, hargument, rfl, es, hes, hget, ?_, hreflects.size.trans (by decide)⟩
  rw [Literal.lookupString, hget]
  rfl

end Example

end Decorator
end MarkupCatalog

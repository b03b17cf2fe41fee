import MarkupCatalog.Proofs.JsonGrammar
import MarkupCatalog.Proofs.JsonTexts
import MarkupCatalog.Proofs.SettingsTexts

/-!
# Objects as settings

Which objects are layers of settings, of all that a text can hold.  A name that is none of the keys,
and a key that comes again in any spelling, is refused, whatever the values are.  Keys of which each
comes once and has a value of its kind make a layer that gives these values and no others.
-/

namespace MarkupCatalog

open Json

namespace Settings.Layer

/-! ## 1. Fields -/

/-- A field is regular if it stands for one part of the draft. -/
theorem regular_field {f : Json.Field Draft} {reader : Reader α} (set : Draft → α → Draft)
    (hread : ∀ d s, f.read d s = (reader s).map fun (v, r) => (set d v, r)) (hkeeps : Keeps reader)
    (hset : ∀ d v, f.isSet (set d v) = true)
    (hothers : ∀ g ∈ record.fields, ∀ d v, g.isSet d = true → g.isSet (set d v) = true) :
    Record.RegularField record f := by
  have hread {d d' : Draft} {s r : List Char} (h : f.read d s = .ok (d', r)) :
      ∃ v, reader s = .ok (v, r) ∧ d' = set d v := by
    rw [hread] at h
    obtain ⟨⟨v, r'⟩, hv, heq⟩ := map_eq_ok h
    cases heq
    exact ⟨v, hv, rfl⟩
  constructor
  · intro d text htext s rest r d' hskip h
    obtain ⟨v, hv, -⟩ := hread h
    exact hkeeps htext hskip hv
  · intro d d' s r h
    obtain ⟨v, -, rfl⟩ := hread h
    exact hset d v
  · intro d d' s r h g hg
    obtain ⟨v, -, rfl⟩ := hread h
    exact hothers g hg d v

theorem keeps_text : Keeps Json.text := keeps_stringAs _

theorem keeps_detail : Keeps Detail.reader := keeps_variant _

theorem regular_record : record.Regular where
  strict := rfl
  fields := by
    have htext := keeps_optional keeps_text
    have hlist := keeps_optional (keeps_list keeps_text)
    have hdetail := keeps_optional keeps_detail
    simp only [record, List.forall_mem_cons]
    refine ⟨?_, ?_, ?_, ?_, ?_, List.forall_mem_nil _⟩
    · exact regular_field (fun d v => { d with destination := some v }) (fun _ _ => rfl) htext
        (fun _ _ => rfl) (by simp [record])
    · exact regular_field (fun d v => { d with files := some v }) (fun _ _ => rfl) htext
        (fun _ _ => rfl) (by simp [record])
    · exact regular_field (fun d v => { d with exclude := some v }) (fun _ _ => rfl) hlist
        (fun _ _ => rfl) (by simp [record])
    · exact regular_field (fun d v => { d with tagDetail := some v }) (fun _ _ => rfl) hdetail
        (fun _ _ => rfl) (by simp [record])
    · exact regular_field (fun d v => { d with attributeDetail := some v }) (fun _ _ => rfl) hdetail
        (fun _ _ => rfl) (by simp [record])

theorem key_of_find? {name : String} {f : Json.Field Draft}
    (h : record.fields.find? (fun f => f.name = name) = some f) : ∃ k : Key, k.name = name := by
  have hkeys : ∀ f ∈ record.fields, ∃ k : Key, k.name = f.name := by
    simp only [record, List.forall_mem_cons]
    exact ⟨⟨.destination, rfl⟩, ⟨.files, rfl⟩, ⟨.exclude, rfl⟩, ⟨.tagFormatter, rfl⟩,
      ⟨.attributeFormatter, rfl⟩, List.forall_mem_nil _⟩
  obtain ⟨k, hk⟩ := hkeys f (List.mem_of_find?_eq_some h)
  exact ⟨k, hk.trans (by simpa using List.find?_some h)⟩

/-! ## 2. Objects that are refused -/

/-- Some member has a name that is none of the keys. -/
def HasUnknown (ms : List (List Char × List Char)) : Prop :=
  ∃ m ∈ ms, ∀ k : Key, ¬ SpellsBody k.name m.1

/-- Two members have the same name, which may be spelled in two ways. -/
def HasRepeated (ms : List (List Char × List Char)) : Prop :=
  ∃ name m n, [m, n].Sublist ms ∧ SpellsBody name m.1 ∧ SpellsBody name n.1

/-- The members of an object that is accepted have keys for names, each one once. -/
theorem keys_of_ofText {ms : List (List Char × List Char)} {text : String} {l : Layer}
    (htext : IsObject ms text) (h : ofText text = .ok l) : ¬ HasUnknown ms ∧ ¬ HasRepeated ms := by
  obtain ⟨names, hnames, hlacks⟩ := Record.decode_names regular_record htext h
  constructor
  · rintro ⟨m, hm, hunknown⟩
    obtain ⟨name, hname, hspells⟩ := exists_name hnames (List.mem_map_of_mem hm)
    obtain ⟨f, hfind, -⟩ := hlacks.unset name hname
    obtain ⟨k, rfl⟩ := key_of_find? hfind
    exact hunknown k hspells
  · rintro ⟨name, m, n, hsub, hm, hn⟩
    have hpairs := List.pairwise_map.mp (pairwise_of_nodup hnames hlacks.nodup)
    exact List.pairwise_iff_forall_sublist.mp hpairs hsub name hm hn

/-! ## 3. Objects that are accepted -/

/-- The values that a key may have. -/
def Key.Admits : Key → Json.Value → Prop
  | destination, v => v = .null ∨ ∃ s, v = .string s
  | files, v => v = .null ∨ ∃ s, v = .string s
  | exclude, v => v = .null ∨ ∃ globs : List String, v = .list (globs.map .string)
  | tagFormatter, v => v = .null ∨ v = .string "simple" ∨ v = .string "summary"
  | attributeFormatter, v => v = .null ∨ v = .string "simple" ∨ v = .string "summary"

/-- The member has this key for its name, and this value. -/
def SpellsSetting (v : Key × Json.Value) (m : List Char × List Char) : Prop :=
  SpellsBody v.1.name m.1 ∧ Spells v.2 m.2

theorem exists_string {v : Json.Value} (h : v = .null ∨ ∃ s, v = .string s) :
    ∃ x : Option String, x.elim .null .string = v := by
  rcases h with rfl | ⟨s, rfl⟩
  · exact ⟨none, rfl⟩
  · exact ⟨some s, rfl⟩

theorem exists_strings {v : Json.Value}
    (h : v = .null ∨ ∃ globs : List String, v = .list (globs.map .string)) :
    ∃ x : Option (List String), (x.elim .null fun globs => .list (globs.map .string)) = v := by
  rcases h with rfl | ⟨globs, rfl⟩
  · exact ⟨none, rfl⟩
  · exact ⟨some globs, rfl⟩

theorem exists_detail {v : Json.Value}
    (h : v = .null ∨ v = .string "simple" ∨ v = .string "summary") :
    ∃ x : Option Detail, (x.elim .null fun d => .string d.name) = v := by
  rcases h with rfl | rfl | rfl
  · exact ⟨none, rfl⟩
  · exact ⟨some .simple, rfl⟩
  · exact ⟨some .summary, rfl⟩

/-- Whatever values are chosen for the keys, there is a layer that gives them. -/
theorem exists_layer {choose : Key → Json.Value} (h : ∀ k : Key, k.Admits (choose k)) :
    ∃ l : Layer, ∀ k, l.value k = choose k := by
  obtain ⟨destination, hdestination⟩ := exists_string (h .destination)
  obtain ⟨files, hfiles⟩ := exists_string (h .files)
  obtain ⟨exclude, hexclude⟩ := exists_strings (h .exclude)
  obtain ⟨tagDetail, htag⟩ := exists_detail (h .tagFormatter)
  obtain ⟨attributeDetail, hattribute⟩ := exists_detail (h .attributeFormatter)
  refine ⟨{ destination, files, exclude, tagDetail, attributeDetail }, fun k => ?_⟩
  cases k <;> assumption

theorem Key.admits_null (k : Key) : k.Admits .null := by
  cases k <;> exact .inl rfl

/-- Values of different keys are part of a choice of values for all keys, null for the others. -/
theorem exists_choice {vs : List (Key × Json.Value)} (hnodup : (vs.map Prod.fst).Nodup)
    (hvs : ∀ v ∈ vs, v.1.Admits v.2) :
    ∃ choose : Key → Json.Value, (∀ k : Key, k.Admits (choose k)) ∧
      (∀ v ∈ vs, choose v.1 = v.2) ∧ ∀ k ∉ vs.map Prod.fst, choose k = .null := by
  induction vs with
  | nil => exact ⟨fun _ => .null, Key.admits_null, nofun, fun _ _ => rfl⟩
  | cons v vs ih =>
    rw [List.map_cons, List.nodup_cons] at hnodup
    rw [List.forall_mem_cons] at hvs
    obtain ⟨choose, hadmits, hgiven, hothers⟩ := ih hnodup.2 hvs.2
    refine ⟨Function.update choose v.1 v.2, fun k => ?_, ?_, fun k hk => ?_⟩
    · by_cases hk : k = v.1
      · rw [hk, Function.update_self]
        exact hvs.1
      · rw [Function.update_of_ne hk]
        exact hadmits k
    · rw [List.forall_mem_cons, Function.update_self]
      refine ⟨rfl, fun w hw => ?_⟩
      -- the key of another member is another key
      have hne : w.1 ≠ v.1 := fun heq => hnodup.1 (heq ▸ List.mem_map_of_mem hw)
      rw [Function.update_of_ne hne]
      exact hgiven w hw
    · rw [List.map_cons, List.mem_cons, not_or] at hk
      rw [Function.update_of_ne hk.1]
      exact hothers k hk.2

theorem isSome_eq_false {encode : α → Json.Value} (hencode : ∀ x, encode x ≠ .null) {x : Option α}
    (h : x.elim .null encode = .null) : x.isSome = false := by
  cases x with
  | none => rfl
  | some x => exact absurd h (hencode x)

theorem gives_eq_false {l : Layer} {k : Key} (h : l.value k = .null) : l.gives k = false := by
  cases k <;> exact isSome_eq_false nofun h

/-- An object with values for different keys holds the layer that gives them. -/
theorem heldBy_of_object {ms : List (List Char × List Char)} {text : String}
    (htext : IsObject ms text) {vs : List (Key × Json.Value)}
    (hms : List.Forall₂ SpellsSetting vs ms) (hnodup : (vs.map Prod.fst).Nodup) {l : Layer}
    (hgiven : ∀ v ∈ vs, l.value v.1 = v.2) (hothers : ∀ k ∉ vs.map Prod.fst, l.value k = .null) :
    l.HeldBy text := by
  obtain ⟨lead, body, space, hlead, hspace, hbody, rfl⟩ := htext
  refine ⟨vs.map Prod.fst, hnodup, fun k hk => ?_, lead, _, space, hlead, hspace, ?_, rfl⟩
  · by_contra hmem
    rw [gives_eq_false (hothers k hmem)] at hk
    cases hk
  · have hmembers : (vs.map Prod.fst).map (fun k => (k.name, l.value k)) =
        vs.map fun v => (v.1.name, v.2) := by
      rw [List.map_map]
      exact List.map_congr_left fun v hv => by rw [Function.comp_apply, hgiven v hv]
    rw [hmembers]
    refine .object (hbody.of_forall₂ (List.forall₂_map_left_iff.mpr (hms.imp ?_)))
    rintro v m ⟨hname, hvalue⟩ t ht
    cases ht with
    | mk _ hspace hlead => exact .mk hname hspace hlead hvalue

/-- An object is refused if one of its names is unknown or comes again, whatever its values are.  If
its names are different keys with values of their kinds, it is the layer that gives these values. -/
theorem ofText_object {ms : List (List Char × List Char)} {text : String} (h : IsObject ms text) :
    (HasUnknown ms ∨ HasRepeated ms → ∃ message, ofText text = .error message) ∧
      ∀ vs : List (Key × Json.Value), List.Forall₂ SpellsSetting vs ms →
        (vs.map Prod.fst).Nodup → (∀ v ∈ vs, v.1.Admits v.2) →
        ∃ l, ofText text = .ok l ∧ (∀ v ∈ vs, l.value v.1 = v.2) ∧
          ∀ k ∉ vs.map Prod.fst, l.value k = .null := by
  constructor
  · intro hbad
    cases hread : ofText text with
    | error message => exact ⟨message, rfl⟩
    | ok l =>
      obtain ⟨hunknown, hrepeated⟩ := keys_of_ofText h hread
      exact (hbad.elim hunknown hrepeated).elim
  · intro vs hvs hnodup hadmits
    obtain ⟨choose, hchoose, hgiven, hothers⟩ := exists_choice hnodup hadmits
    obtain ⟨l, hl⟩ := exists_layer hchoose
    obtain rfl := funext hl
    have hheld := heldBy_of_object h hvs hnodup hgiven hothers
    exact ⟨l, ofText_of_heldBy hheld, hgiven, hothers⟩

/-- A key that comes again with an escape in it, with a number that is too large for its value, and
the same key once beside another one. -/
theorem ofText_object_files :
    let files := "files\"".toList
    let files' := "f\\u0069les\"".toList
    let globs := "[\"a\"]".toList
    let refused := "\x7b\"files\":null,\"f\\u0069les\" : 1e999\x7d"
    let accepted := "\x7b\"exclude\":[\"a\"],\"f\\u0069les\":null\x7d\n"
    (IsObject [(files, "null".toList), (files', "1e999".toList)] refused ∧
      ∃ message, ofText refused = .error message) ∧
    IsObject [("exclude\"".toList, globs), (files', "null".toList)] accepted ∧
      ∃ l, ofText accepted = .ok l ∧ l.value .exclude = .list [.string "a"] ∧
        l.value .files = .null ∧ l.value .destination = .null := by
  intro files files' globs refused accepted
  -- what each member spells, with the escape and without it
  have hblank : Space [' '] := .cons rfl .nil
  have hname (s : String) := spellsBody_escaped s
  have hfiles : SpellsBody "files" files := hname "files"
  have hcode : SpellsCode 'i'.toNat ['0', '0', '6', '9'] :=
    .digits (.small (n := 0) (by decide)) (.small (n := 0) (by decide))
      (.small (n := 6) (by decide)) (.small (n := 9) (by decide))
  have hrest : SpellsBody "iles" _ := .cons (c := 'i') (by decide) (.code hcode) (hname "les")
  have hfiles' : SpellsBody "files" files' :=
    .cons (c := 'f') (by decide) (.plain (by decide) (by decide) (by decide)) hrest
  have hnumber : IsNumber "1e999".toList :=
    .positive (.digits (c := '1') (s := []) (by decide) ⟨by decide, List.all_eq_true.mp rfl⟩) .none
      (.digits (s := "999".toList) (.inl rfl) (.inl rfl) ⟨by decide, List.all_eq_true.mp rfl⟩)
  have hglob : IsItem _ _ := .mk (.string (isBody_of_spells (hname "a")))
  have hglobs : IsValue globs := .list (.cons .nil hglob (.nil .nil))
  have hfirst : IsMember (files, "null".toList) _ :=
    .mk (isBody_of_spells hfiles) .nil .nil .null
  have hlarge : IsMember (files', "1e999".toList) _ :=
    .mk (isBody_of_spells hfiles') hblank hblank (.number hnumber)
  have hexcluded : IsMember ("exclude\"".toList, globs) _ :=
    .mk (isBody_of_spells (hname "exclude")) .nil .nil hglobs
  have hunset : IsMember (files', "null".toList) _ :=
    .mk (isBody_of_spells hfiles') .nil .nil .null
  -- the objects that the members make up
  have hrefused : IsObject [(files, "null".toList), (files', "1e999".toList)] refused :=
    ⟨[], _, [], .nil, .nil, .cons .nil hfirst (.cons .nil .nil hlarge (.nil .nil)),
      by decide +kernel⟩
  have haccepted : IsObject [("exclude\"".toList, globs), (files', "null".toList)] accepted :=
    ⟨[], _, ['\n'], .nil, .cons rfl .nil, .cons .nil hexcluded (.cons .nil .nil hunset (.nil .nil)),
      by decide +kernel⟩
  have hlist : Spells (.list [.string "a"]) globs :=
    .list (.cons .nil (Spells.string (spells_writeString "a")) (.nil .nil))
  have hexclude : SpellsSetting (.exclude, .list [.string "a"]) ("exclude\"".toList, globs) :=
    ⟨hname "exclude", hlist⟩
  have hnull : SpellsSetting (.files, .null) (files', "null".toList) := ⟨hfiles', .null⟩
  have hadmits : ∀ v ∈ [(Key.exclude, Json.Value.list [.string "a"]), (.files, .null)],
      v.1.Admits v.2 :=
    List.forall_mem_cons.mpr ⟨.inr ⟨["a"], rfl⟩, List.forall_mem_singleton.mpr (.inl rfl)⟩
  have hrepeated : HasRepeated [(files, "null".toList), (files', "1e999".toList)] :=
    ⟨"files", _, _, .refl _, hfiles, hfiles'⟩
  obtain ⟨l, hread, hgiven, hothers⟩ :=
    (ofText_object haccepted).2 _ (.cons hexclude (.cons hnull .nil)) (by decide) hadmits
  obtain ⟨hglobs, hfiles⟩ := List.forall_mem_cons.mp hgiven
  exact ⟨⟨hrefused, (ofText_object hrefused).1 (.inr hrepeated)⟩, haccepted, l, hread, hglobs,
    hfiles (.files, .null) List.mem_cons_self, hothers _ (by decide)⟩

end Settings.Layer

end MarkupCatalog

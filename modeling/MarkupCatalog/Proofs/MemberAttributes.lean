import MarkupCatalog.Proofs.Entries
import MarkupCatalog.Proofs.Sites

/-!
# Member attributes

The attributes of an element are the names that its class exposes: those of the members that carry
an input or an output decorator.  A name counts once, at the first member that exposes it, which
also describes it.  `Member.Lists` says this of a list of attributes without the extraction.
-/

namespace MarkupCatalog

namespace Member

/-! ## 1. Inputs and outputs -/

/-- One of the decorators of the member has the role. -/
def Carries (m : Member) (role : Role) : Prop := ∃ d ∈ m.decorators, d.role = some role

/-- The member is an input or an output. -/
def IsExposed (m : Member) : Prop := m.Carries .input ∨ m.Carries .output

instance (m : Member) (role : Role) : Decidable (m.Carries role) :=
  inferInstanceAs (Decidable (∃ d ∈ m.decorators, d.role = some role))

instance : DecidablePred IsExposed := fun m =>
  inferInstanceAs (Decidable (m.Carries .input ∨ m.Carries .output))

/-- Some of the members is an input or an output with this name. -/
def Exposes (ms : List Member) (name : String) : Prop :=
  name ≠ "" ∧ ∃ m ∈ ms, m.name = name ∧ m.IsExposed

/-- What the documentation of a member says, as that of an input, an output or both. -/
def description (f : Formatter) (m : Member) : String :=
  match m.doc? with
  | some doc => f.describeAttribute doc (decide (m.Carries .input)) (decide (m.Carries .output))
  | none => ""

/-- The attributes are the exposed names, each at the first member that exposes it. -/
structure Lists (f : Formatter) (ms : List Member) (as : List Attribute) : Prop where
  named : ∀ a ∈ as, a.name ≠ ""
  distinct : (as.map Attribute.name).Nodup
  mem_iff : ∀ name, name ∈ as.map Attribute.name ↔ Exposes ms name
  /-- Nothing before the member exposes the name, and the attributes before this one are the names
  that are exposed before the member. -/
  first : ∀ front a back, as = front ++ a :: back →
    ∃ before m after, ms = before ++ m :: after ∧ m.IsExposed ∧ m.name = a.name ∧
      (∀ b ∈ before, b.name = a.name → ¬ b.IsExposed) ∧
      (∀ name, name ∈ front.map Attribute.name ↔ Exposes before name) ∧
      a.description = m.description f

theorem has_decorators_iff (m : Member) (role : Role) :
    Decorator.has m.decorators role = true ↔ m.Carries role := by
  rw [Decorator.has, Decorator.find?, List.isSome_find?, List.any_eq_true]
  apply exists_congr
  intro d
  cases d.role <;> simp [eq_comm]

theorem attribute?_eq (f : Formatter) (m : Member) :
    m.attribute? f =
      if m.IsExposed ∧ m.name ≠ "" then some ⟨m.name, m.description f⟩ else none := by
  have hinput : Decorator.has m.decorators .input = decide (m.Carries .input) := by
    rw [Bool.eq_iff_iff, has_decorators_iff, decide_eq_true_iff]
  have houtput : Decorator.has m.decorators .output = decide (m.Carries .output) := by
    rw [Bool.eq_iff_iff, has_decorators_iff, decide_eq_true_iff]
  unfold attribute?
  simp only [Decorator.isNone_find?_forMembers, hinput, houtput]
  by_cases h : m.IsExposed ∧ m.name ≠ ""
  · -- the two ways to skip a member are the two ways not to be listed
    rw [if_pos h, if_neg]
    · unfold description
      cases m.doc? <;> rfl
    · have hexposed := h.1
      unfold IsExposed at hexposed
      simp only [Bool.or_eq_true, Bool.and_eq_true, Bool.not_eq_true', decide_eq_false_iff_not,
        String.isEmpty_iff]
      tauto
  · rw [if_neg h, if_pos]
    unfold IsExposed at h
    simp only [Bool.or_eq_true, Bool.and_eq_true, Bool.not_eq_true', decide_eq_false_iff_not,
      String.isEmpty_iff]
    tauto

/-! ## 2. One member after the other -/

variable (f : Formatter) (seen : List String)

/-- The member adds an attribute to the names that have been seen. -/
def IsNew (m : Member) : Prop := m.IsExposed ∧ m.name ≠ "" ∧ m.name ∉ seen

theorem attributes_cons_of_new {m : Member} (h : m.IsNew seen) (ms : List Member) :
    attributes f seen (m :: ms) =
      ⟨m.name, m.description f⟩ :: attributes f (m.name :: seen) ms := by
  rw [attributes, attribute?_eq, if_pos ⟨h.1, h.2.1⟩]
  exact if_neg h.2.2

theorem attributes_cons_of_not_new {m : Member} (h : ¬ m.IsNew seen) (ms : List Member) :
    attributes f seen (m :: ms) = attributes f seen ms := by
  rw [attributes, attribute?_eq]
  by_cases hm : m.IsExposed ∧ m.name ≠ ""
  · rw [if_pos hm]
    exact if_pos (Decidable.not_not.mp fun hseen => h ⟨hm.1, hm.2, hseen⟩)
  · rw [if_neg hm]

theorem exposes_cons (m : Member) (ms : List Member) (name : String) :
    Exposes (m :: ms) name ↔ (name ≠ "" ∧ m.name = name ∧ m.IsExposed) ∨ Exposes ms name := by
  unfold Exposes
  simp only [List.exists_mem_cons_iff]
  tauto

/-- The names that are listed are those that are exposed and have not been seen. -/
theorem mem_attributes_iff (ms : List Member) (name : String) :
    name ∈ (attributes f seen ms).map Attribute.name ↔ name ∉ seen ∧ Exposes ms name := by
  induction ms generalizing seen with
  | nil => simp [attributes, Exposes]
  | cons m ms ih =>
    rw [exposes_cons]
    by_cases h : m.IsNew seen
    · rw [attributes_cons_of_new f seen h, List.map_cons, List.mem_cons, ih, List.mem_cons]
      obtain ⟨hexposed, hname, hseen⟩ := h
      by_cases heq : name = m.name
      · subst heq
        simp [hexposed, hname, hseen]
      · have hne : m.name ≠ name := fun h => heq h.symm
        simp [heq, hne]
    · rw [attributes_cons_of_not_new f seen h, ih]
      -- a member that is not new exposes no name that has not been seen
      unfold IsNew at h
      constructor
      · rintro ⟨hseen, hms⟩
        exact ⟨hseen, .inr hms⟩
      · rintro ⟨hseen, ⟨hname, rfl, hexposed⟩ | hms⟩
        · exact absurd ⟨hexposed, hname, hseen⟩ h
        · exact ⟨hseen, hms⟩

theorem nodup_attributes (ms : List Member) :
    ((attributes f seen ms).map Attribute.name).Nodup := by
  induction ms generalizing seen with
  | nil => exact List.nodup_nil
  | cons m ms ih =>
    by_cases h : m.IsNew seen
    · rw [attributes_cons_of_new f seen h, List.map_cons, List.nodup_cons, mem_attributes_iff]
      refine ⟨fun hm => hm.1 ?_, ih _⟩
      exact List.mem_cons_self
    · rw [attributes_cons_of_not_new f seen h]
      exact ih seen

/-- An attribute comes from the first member that exposes its name, and the attributes before it
come from the members before this one. -/
theorem exists_first {ms : List Member} {front back : List Attribute} {a : Attribute}
    (h : attributes f seen ms = front ++ a :: back) :
    ∃ before m after, ms = before ++ m :: after ∧ m.IsNew seen ∧ a = ⟨m.name, m.description f⟩ ∧
      ¬ Exposes before a.name ∧ front = attributes f seen before := by
  induction ms generalizing seen front with
  | nil => exact absurd h (by simp [attributes])
  | cons m ms ih =>
    by_cases hm : m.IsNew seen
    · rw [attributes_cons_of_new f seen hm] at h
      cases front with
      | nil =>
        -- the member gives the first attribute
        obtain ⟨ha, -⟩ := List.cons.inj h
        exact ⟨[], m, ms, rfl, hm, ha.symm, by simp [Exposes], rfl⟩
      | cons b front =>
        obtain ⟨hb, h⟩ := List.cons.inj h
        obtain ⟨before, n, after, rfl, hn, ha, hbefore, hfront⟩ := ih _ h
        -- the later member is new although the name of this one has been seen
        have hother : m.name ≠ a.name := by
          rw [ha]
          exact fun heq => hn.2.2 (heq ▸ List.mem_cons_self)
        refine ⟨m :: before, n, after, rfl, ?_, ha, ?_, ?_⟩
        · exact ⟨hn.1, hn.2.1, fun hseen => hn.2.2 (List.mem_cons_of_mem _ hseen)⟩
        · rw [exposes_cons]
          tauto
        · rw [attributes_cons_of_new f seen hm, ← hb, ← hfront]
    · rw [attributes_cons_of_not_new f seen hm] at h
      obtain ⟨before, n, after, rfl, hn, ha, hbefore, hfront⟩ := ih _ h
      refine ⟨m :: before, n, after, rfl, hn, ha, ?_, ?_⟩
      · rw [exposes_cons]
        rintro (⟨hname, heq, hexposed⟩ | hlater)
        · -- the name is new at the later member, so that it is new at this one
          have hnew : a.name ∉ seen := by
            rw [ha]
            exact hn.2.2
          exact hm ⟨hexposed, heq ▸ hname, heq ▸ hnew⟩
        · exact hbefore hlater
      · rw [attributes_cons_of_not_new f seen hm, ← hfront]

/-- Members that are neither inputs nor outputs do not count. -/
theorem attributes_filter (ms : List Member) :
    attributes f seen (ms.filter fun m => decide m.IsExposed) = attributes f seen ms := by
  induction ms generalizing seen with
  | nil => rfl
  | cons m ms ih =>
    by_cases hexposed : m.IsExposed
    · have hkept := decide_eq_true hexposed
      rw [List.filter_cons_of_pos (p := fun m : Member => decide m.IsExposed) hkept]
      by_cases h : m.IsNew seen
      · rw [attributes_cons_of_new f seen h, attributes_cons_of_new f seen h, ih]
      · rw [attributes_cons_of_not_new f seen h, attributes_cons_of_not_new f seen h, ih]
    · have h : ¬ m.IsNew seen := fun hm => hexposed hm.1
      have hleft := mt of_decide_eq_true hexposed
      rw [List.filter_cons_of_neg (p := fun m : Member => decide m.IsExposed) hleft,
        attributes_cons_of_not_new f seen h, ih]

theorem lists_attributes (ms : List Member) : Lists f ms (attributes f [] ms) where
  named a ha := ((mem_attributes_iff f [] ms a.name).mp (List.mem_map_of_mem ha)).2.1
  distinct := nodup_attributes f [] ms
  mem_iff name := by simp [mem_attributes_iff]
  first front a back h := by
    obtain ⟨before, m, after, hms, hm, rfl, hbefore, rfl⟩ := exists_first f [] h
    refine ⟨before, m, after, hms, hm.1, rfl, ?_, ?_, rfl⟩
    · intro b hb hname hexposed
      exact hbefore ⟨hm.2.1, b, hb, hname, hexposed⟩
    · intro name
      simp [mem_attributes_iff]

end Member

/-! ## 3. Elements -/

/-- The part of a selector gives a tag. -/
def Selector.Fragment.isTag : Selector.Fragment → Bool
  | .element _ | .elementAttribute _ _ => true
  | .globalAttribute _ => false

namespace Declaration

theorem length_tags_entry (f : Formatter) (d : Declaration) (parts : List Selector.Fragment) :
    ((parts.map (d.entry f)).filterMap Sum.getLeft?).length =
      parts.countP Selector.Fragment.isTag := by
  induction parts with
  | nil => rfl
  | cons part parts ih =>
    rw [List.map_cons, List.filterMap_cons, List.countP_cons, ← ih]
    cases part <;> rfl

/-- The tag that an element in the selector gives. -/
theorem tags_extract_element (f : Formatter) {d : Declaration} {s name : String}
    {parts rest : List Selector.Fragment} (hs : d.HasSelector s)
    (h : Selector.classify s = parts ++ .element name :: rest) :
    (d.extract f).tags[parts.countP Selector.Fragment.isTag]? =
      some ⟨name, d.description f, Member.attributes f [] d.members⟩ := by
  rw [extract_of_selector ((selector?_eq_some_iff d s).mpr hs), h, ← length_tags_entry f d]
  show (((parts ++ _ :: rest).map (d.entry f)).filterMap Sum.getLeft?)[_]? = _
  rw [List.map_append, List.filterMap_append, List.getElem?_append_right (Nat.le_refl _),
    Nat.sub_self]
  rfl

/-- The attributes of an element are the names that the members of its class expose, each once and
as the first member that exposes it describes it.  Other members, of whatever names, do not
count. -/
theorem elementTag_lists (f : Formatter) {d : Declaration} {s name : String}
    {parts rest : List Selector.Fragment} (hs : d.HasSelector s)
    (h : Selector.classify s = parts ++ .element name :: rest) :
    ∃ t, (d.extract f).tags[parts.countP Selector.Fragment.isTag]? = some t ∧ t.name = name ∧
      Member.Lists f d.members t.attributes ∧
      ∀ e : Declaration, e.HasSelector s →
        (e.members.filter fun m => decide m.IsExposed) =
          (d.members.filter fun m => decide m.IsExposed) →
        ∃ u, (e.extract f).tags[parts.countP Selector.Fragment.isTag]? = some u ∧
          u.attributes = t.attributes := by
  refine ⟨_, tags_extract_element f hs h, rfl, Member.lists_attributes f d.members, ?_⟩
  intro e he hmembers
  refine ⟨_, tags_extract_element f he h, ?_⟩
  show Member.attributes f [] e.members = Member.attributes f [] d.members
  rw [← Member.attributes_filter, hmembers, Member.attributes_filter]

section Example

/-- A method with the name `a`. -/
def methodA : Tree :=
  .node .methodDefinition none "" [.node .propertyIdentifier (some .name) "a" []]

/-- A directive with three methods of one name.  The first has no decorator, the second is an input
with documentation, and the third is an output. -/
def threeMethods : Declaration :=
  { place := .ofRoot <| .node .classDeclaration none "" <| (Tree.directive "app-a").children ++
      [.node .classBody (some .body) ""
        [methodA,
          .leaf .comment "/** A. */",
          .node .decorator none "" [.leaf .identifier "Input"],
          methodA,
          .node .decorator none "" [.leaf .identifier "Output"],
          methodA]] }

theorem elementTag_lists_threeMethods :
    let f : Formatter := .ofDetail .simple .simple
    threeMethods.HasSelector "app-a" ∧
      Selector.classify "app-a" = [] ++ .element "app-a" :: [] ∧
      ∃ t, (threeMethods.extract f).tags[0]? = some t ∧ t.name = "app-a" ∧
        Member.Lists f threeMethods.members t.attributes ∧
        t.attributes = [⟨"a", "A.\n\n_@Input_"⟩] := by
  intro f
  have hs : threeMethods.HasSelector "app-a" := (selector?_eq_some_iff _ _).mp (by decide)
  have hpart : Selector.classify "app-a" = [] ++ .element "app-a" :: [] := by decide
  obtain ⟨t, ht, hname, hlists, -⟩ := elementTag_lists f hs hpart
  refine ⟨hs, hpart, t, ht, hname, hlists, ?_⟩
  have hattributes : (Option.map Tag.attributes (threeMethods.extract f).tags[0]?) =
      some [⟨"a", "A.\n\n_@Input_"⟩] := by decide
  rw [show (threeMethods.extract f).tags[0]? = some t from ht] at hattributes
  exact Option.some.inj hattributes

end Example

end Declaration
end MarkupCatalog

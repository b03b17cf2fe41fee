import MarkupCatalog.Proofs.Thinning

/-!
# Outlines

The outline of a tree has nothing left of the code in the members of its classes: of the body of a
method and of the value of a field there is only the node itself.  Nothing that is read of a class
goes through this code, so that the outline of a class reads like the class.
-/

namespace MarkupCatalog

/-! ## 1. Outlines -/

/-- Where a node stands: in a class body, in a member of a class body, or elsewhere. -/
inductive Standing where
  | elsewhere
  | inBody
  | inMember
  deriving DecidableEq

namespace Standing

/-- Where the children of a node stand. -/
def below (p : Standing) (t : Tree) : Standing :=
  if t.kind = .classBody ∧ t.label = some .body then .inBody
  else if p = .inBody ∧ t.kind.isMember = true then .inMember
  else .elsewhere

/-- The node is the body of a method or the value of a field. -/
def isCode (p : Standing) (t : Tree) : Bool :=
  p == .inMember && (t.label == some .body || t.label == some .value) &&
    !(t.kind == .comment || t.kind == .decorator)

theorem isCode_of_ne {p : Standing} (t : Tree) (h : p ≠ .inMember) : p.isCode t = false := by
  unfold isCode
  rw [beq_eq_false_iff_ne.mpr h]
  rfl

theorem isCode_of_kind (p : Standing) {t : Tree} (h : t.kind = .comment ∨ t.kind = .decorator) :
    p.isCode t = false := by
  unfold isCode
  rcases h with h | h <;> rw [h] <;> exact Bool.and_false _

theorem isCode_of_name (p : Standing) {t : Tree} (h : t.label = some .name) :
    p.isCode t = false := by
  unfold isCode
  rw [h]
  exact congrArg (· && _) (Bool.and_false _)

theorem below_eq_elsewhere {p : Standing} {t : Tree}
    (hbody : ¬ (t.kind = .classBody ∧ t.label = some .body))
    (hmember : ¬ (p = .inBody ∧ t.kind.isMember = true)) : p.below t = .elsewhere := by
  rw [below, if_neg hbody, if_neg hmember]

end Standing

namespace Tree

mutual

/-- The tree without the code in the members of its classes, and without the texts that are not
read. -/
def outline (p : Standing) : Tree → Tree
  | .node k l s cs =>
    if p.isCode (.node k l s cs) then .node k l "" []
    else
      .node k l (if (node k l s cs).isVerbatim then s else "")
        (outlines (p.below (.node k l s cs)) cs)

def outlines (p : Standing) : List Tree → List Tree
  | [] => []
  | t :: ts => t.outline p :: outlines p ts

end

theorem outlines_eq_map (p : Standing) (ts : List Tree) : outlines p ts = ts.map (outline p) := by
  induction ts with
  | nil => rfl
  | cons t ts ih => rw [outlines, ih, List.map_cons]

variable {p : Standing}

@[simp] theorem kind_outline (t : Tree) : (t.outline p).kind = t.kind := by
  obtain ⟨k, l, s, cs⟩ := t
  rw [outline]
  split <;> rfl

@[simp] theorem label_outline (t : Tree) : (t.outline p).label = t.label := by
  obtain ⟨k, l, s, cs⟩ := t
  rw [outline]
  split <;> rfl

@[simp] theorem isNamed_outline (t : Tree) : (t.outline p).isNamed = t.isNamed := by
  rw [isNamed, kind_outline, isNamed]

@[simp] theorem isComment_outline (t : Tree) : (t.outline p).isComment = t.isComment := by
  rw [isComment, kind_outline, isComment]

theorem children_outline {t : Tree} (h : p.isCode t = false) :
    (t.outline p).children = t.children.map (outline (p.below t)) := by
  obtain ⟨k, l, s, cs⟩ := t
  rw [outline, h, outlines_eq_map]
  rfl

theorem text_outline {t : Tree} (h : p.isCode t = false) (hread : t.isVerbatim = true) :
    (t.outline p).text = t.text := by
  obtain ⟨k, l, s, cs⟩ := t
  rw [outline, h, hread]
  rfl

theorem child?_outline {t : Tree} (h : p.isCode t = false) (l : Label) :
    (t.outline p).child? l = (t.child? l).map (outline (p.below t)) := by
  unfold child?
  rw [children_outline h, List.find?_map]
  simp only [Function.comp_def, label_outline]

theorem content?_outline {t : Tree} (h : p.isCode t = false) :
    Decorator.content? (t.outline p) = (Decorator.content? t).map (outline (p.below t)) := by
  unfold Decorator.content?
  rw [children_outline h, List.find?_map]
  simp only [Function.comp_def, isNamed_outline, isComment_outline]

/-! ## 2. What is read of a node -/

end Tree

theorem Kind.eq_name_of_asks {k : Kind} {l : Label} (hmember : k.isMember = true)
    (h : k.asks l = true) : l = .name := by
  cases k with
  | fieldDefinition | methodDefinition =>
    cases l <;> first | rfl | exact absurd h (by decide)
  | _ => exact absurd hmember (by decide)

namespace Tree

variable {p : Standing}

/-- The second tree is the outline of the first, which is no code itself.  What plays the part of
arguments is no member of a class. -/
inductive Outlined : Tree → Tree → Prop
  | intro {t : Tree} (p : Standing) (code : p.isCode t = false)
      (arguments : t.label = some .arguments → ¬ (p = .inBody ∧ t.kind.isMember = true)) :
      Outlined t (t.outline p)

theorem outlined_elsewhere (t : Tree) : Outlined t (t.outline .elsewhere) :=
  .intro .elsewhere (Standing.isCode_of_ne t (by decide)) fun _ h => absurd h.1 (by decide)

theorem outlined_decorator (p : Standing) {t : Tree} (h : t.kind = .decorator) :
    Outlined t (t.outline p) := by
  refine .intro p (p.isCode_of_kind (.inr h)) fun _ hmember => ?_
  rw [h] at hmember
  exact absurd hmember.2 (by decide)

theorem rel_outlined_map {o : Option Tree} (h : ∀ t, o = some t → Outlined t (t.outline p)) :
    Option.Rel Outlined o (o.map (outline p)) := by
  cases o with
  | none => exact .none
  | some t => exact .some (h t rfl)

theorem mirror_outlined : Mirror Outlined := by
  constructor
  case kind =>
    rintro t u ⟨p, -, -⟩
    exact kind_outline t
  case text =>
    rintro t u ⟨p, hcode, -⟩ hread
    exact text_outline hcode hread
  case child =>
    rintro t u l ⟨p, hcode, -⟩ hasks
    rw [child?_outline hcode]
    refine rel_outlined_map fun c hc => ?_
    by_cases hmember : t.kind.isMember = true
    · -- of a member the name is looked up
      have hlabel := label_of_child? hc
      rw [Kind.eq_name_of_asks hmember hasks] at hlabel
      refine .intro _ (Standing.isCode_of_name _ hlabel) fun h => ?_
      rw [hlabel] at h
      exact absurd h (by decide)
    · have hbelow : p.below t = .elsewhere := by
        refine Standing.below_eq_elsewhere ?_ fun h => hmember h.2
        rintro ⟨hk, -⟩
        rw [hk] at hasks
        cases l <;> exact absurd hasks (by decide)
      rw [hbelow]
      exact outlined_elsewhere c
  case content =>
    rintro t u ⟨p, hcode, harguments⟩ hplace
    have hbelow : p.below t = .elsewhere := by
      rcases hplace with hk | hl
      · exact Standing.below_eq_elsewhere (fun h => by simp [hk] at h) fun h => by
          rw [hk] at h
          exact absurd h.2 (by decide)
      · exact Standing.below_eq_elsewhere (fun h => by simp [hl] at h) (harguments hl)
    rw [content?_outline hcode, hbelow]
    exact rel_outlined_map fun c _ => outlined_elsewhere c
  case children =>
    rintro t u ⟨p, hcode, -⟩ hk α g hrelated -
    have hbelow : p.below t = .elsewhere := by
      refine Standing.below_eq_elsewhere (fun h => ?_) fun h => ?_
      · simp [h.1] at hk
      · rcases hk with hk | hk | hk <;> rw [hk] at h <;> exact absurd h.2 (by decide)
    rw [children_outline hcode, List.flatMap_map, hbelow]
    exact List.flatMap_congr fun c _ => hrelated c _ (outlined_elsewhere c)

theorem signs_outline {t : Tree} (h : p.isCode t = false) :
    (t.outline p).decorators.filterMap sign? = t.decorators.filterMap sign? := by
  unfold decorators
  rw [children_outline h, List.filter_map, List.filterMap_map]
  simp only [Function.comp_def, kind_outline]
  refine List.filterMap_congr fun c hc => ?_
  have hk : c.kind = .decorator := beq_iff_eq.mp (List.mem_filter.mp hc).2
  exact mirror_outlined.sign? (outlined_decorator _ hk) hk

theorem texts_leading_outline (ts : List Tree) :
    (leading (ts.map (outline p))).map text = (leading ts).map text := by
  induction ts with
  | nil => rfl
  | cons t ts ih =>
    rw [List.map_cons, leading_cons, leading_cons, kind_outline, isComment_outline]
    by_cases hleads : t.kind.leads = true
    · by_cases hcomment : t.isComment = true
      · have hk := (isComment_iff t).mp hcomment
        have htext : (t.outline p).text = t.text :=
          text_outline (p.isCode_of_kind (.inl hk)) (by rw [isVerbatim, hk])
        rw [if_pos hleads, if_pos hleads, if_pos hcomment, if_pos hcomment, List.map_cons,
          List.map_cons, htext, ih]
      · rw [if_pos hleads, if_pos hleads, if_neg hcomment, if_neg hcomment, ih]
    · rw [if_neg hleads, if_neg hleads]

theorem texts_leadingComments_outline {t : Tree} (h : p.isCode t = false) :
    (t.outline p).leadingComments.map text = t.leadingComments.map text := by
  rw [leadingComments_eq, leadingComments_eq, children_outline h, texts_leading_outline]

end Tree

/-! ## 3. Members -/

theorem Doc.among_congr (heard : String → Bool) {cs ds : List Tree}
    (h : cs.map Tree.text = ds.map Tree.text) : Doc.among heard cs = Doc.among heard ds := by
  rw [Doc.among, Tree.firstHeard, h]
  rfl

namespace Member

variable {p : Standing}

theorem name_outline {t : Tree} (h : p.isCode t = false) (ds ds' cs cs' : List Tree) :
    (Member.mk (t.outline p) ds' cs').name = (Member.mk t ds cs).name := by
  apply Tree.mirror_outlined.name
  rw [Tree.child?_outline h]
  refine Tree.rel_outlined_map fun c hc => ?_
  have hlabel := Tree.label_of_child? hc
  refine .intro _ (Standing.isCode_of_name _ hlabel) fun h => ?_
  rw [hlabel] at h
  exact absurd h (by decide)

theorem reading_outline (heard : String → Bool) {ds ds' cs cs' : List Tree} {t : Tree}
    (ht : p.isCode t = false) (hsigns : ds'.filterMap Tree.sign? = ds.filterMap Tree.sign?)
    (hcomments : cs'.map Tree.text = cs.map Tree.text) :
    (Member.mk (t.outline p) ds' cs').reading heard = (Member.mk t ds cs).reading heard := by
  have hs : (Member.mk (t.outline p) ds' cs').signs = (Member.mk t ds cs).signs := by
    unfold signs
    rw [List.filterMap_append, List.filterMap_append, Tree.signs_outline ht, hsigns]
  have hd : Doc.among heard (cs' ++ (t.outline p).leadingComments) =
      Doc.among heard (cs ++ t.leadingComments) := by
    apply Doc.among_congr
    rw [List.map_append, List.map_append, hcomments, Tree.texts_leadingComments_outline ht]
  unfold reading
  rw [hs, name_outline ht ds ds' cs cs', hd]

theorem readings_collect_outline (heard : String → Bool) (hp : p ≠ .inMember)
    {ds ds' cs cs' : List Tree} (ts : List Tree)
    (hsigns : ds'.filterMap Tree.sign? = ds.filterMap Tree.sign?)
    (hcomments : cs'.map Tree.text = cs.map Tree.text) :
    (collect ds' cs' (ts.map (Tree.outline p))).map (reading heard) =
      (collect ds cs ts).map (reading heard) := by
  -- what waits for a member is only compared by what is read of it
  induction ts generalizing ds ds' cs cs' with
  | nil => rfl
  | cons t ts ih =>
    have hcode := Standing.isCode_of_ne t hp
    have hkind : (t.outline p).kind = t.kind := Tree.kind_outline t
    rw [List.map_cons]
    by_cases hleads : t.kind.leads = true
    · rcases Kind.leads_cases hleads with ht | ht | ht
      · have htext : (t.outline p).text = t.text :=
          Tree.text_outline hcode (by rw [Tree.isVerbatim, ht])
        rw [collect_comment _ _ _ ht, collect_comment _ _ _ (hkind.trans ht)]
        apply ih hsigns
        rw [List.map_append, List.map_append, hcomments, List.map_singleton, List.map_singleton,
          htext]
      · have hsign : (t.outline p).sign? = t.sign? :=
          Tree.mirror_outlined.sign? (Tree.outlined_decorator p ht) ht
        rw [collect_decorator _ _ _ ht, collect_decorator _ _ _ (hkind.trans ht)]
        refine ih ?_ hcomments
        rw [List.filterMap_append, List.filterMap_append, hsigns, List.filterMap_cons,
          List.filterMap_cons, hsign]
      · rw [collect_token _ _ _ ht, collect_token _ _ _ (hkind.trans ht)]
        exact ih hsigns hcomments
    · by_cases hmember : t.kind.isMember = true
      · rw [collect_member _ _ _ hmember, collect_member _ _ _ (by rwa [hkind]), List.map_cons,
          List.map_cons, reading_outline heard hcode hsigns hcomments, ih rfl rfl]
      · rw [collect_other _ _ _ hleads hmember,
          collect_other _ _ _ (by rwa [hkind]) (by rwa [hkind])]
        exact ih rfl rfl

end Member

theorem Tree.readings_members_outline (heard : String → Bool) {t : Tree}
    (ht : t.kind.isClass = true) :
    (t.outline .elsewhere).members.map (Member.reading heard) =
      t.members.map (Member.reading heard) := by
  have hcode : Standing.elsewhere.isCode t = false := Standing.isCode_of_ne t (by decide)
  unfold members
  rw [child?_outline hcode]
  cases t.child? .body with
  | none => rfl
  | some body =>
    -- neither the body of a class nor its members are code
    have hbody : Standing.elsewhere.below t = .elsewhere := by
      refine Standing.below_eq_elsewhere ?_ fun h => absurd h.1 (by decide)
      rintro ⟨hk, -⟩
      rw [hk] at ht
      exact absurd ht (by decide)
    have hmembers : Standing.elsewhere.below body ≠ .inMember := by
      unfold Standing.below
      rw [if_neg fun h : Standing.elsewhere = .inBody ∧ _ => absurd h.1 (by decide)]
      split <;> decide
    rw [Option.map_some, hbody]
    dsimp only
    rw [children_outline (Standing.isCode_of_ne body (by decide)),
      Member.readings_collect_outline heard hmembers _ rfl rfl]

end MarkupCatalog

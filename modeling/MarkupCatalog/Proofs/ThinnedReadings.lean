import MarkupCatalog.Proofs.Thinning

/-!
# Readings of thinned trees

A thinned tree has the readings of the tree.  The walks over the two trees go side by side, and
`Alike` is what stays true of their surroundings.  They need not be the same: where a decorator is
missing, comments on both sides of it come together.
-/

open MarkupCatalog.Tree

namespace MarkupCatalog

variable {heard : String → Bool}

/-! ## 1. Nodes without classes -/

theorem Site.readings_cons (heard : String → Bool) (s : Site) (ss : List Site) :
    readings heard (s :: ss) =
      if s.node.kind.isClass then s.reading heard :: readings heard ss else readings heard ss := by
  unfold readings
  rw [List.filter_cons]
  split <;> rfl

theorem Tree.readings_sites (heard : String → Bool) (run : List Tree)
    (around : Option (Tree × List Tree)) (t : Tree) :
    Site.readings heard (t.sites run around) =
      (if t.kind.isClass then [(Site.mk t run around).reading heard] else []) ++
        Site.readings heard (sitesOf [] (aroundChildren run t) t.children) := by
  obtain ⟨k, l, s, cs⟩ := t
  rw [sites, Site.readings_cons]
  show (if k.isClass = true then _ else _) = (if k.isClass = true then _ else _) ++ _
  split <;> rfl

mutual

theorem Tree.any_isClass_sites (run : List Tree) (around : Option (Tree × List Tree)) :
    ∀ t : Tree, ((t.sites run around).any fun s => s.node.kind.isClass) = t.hasClass
  | .node k l s cs => by
    rw [sites, List.any_cons, Tree.any_isClass_sitesOf [] _ cs]
    rfl

theorem Tree.any_isClass_sitesOf (run : List Tree) (around : Option (Tree × List Tree)) :
    ∀ ts : List Tree, ((sitesOf run around ts).any fun s => s.node.kind.isClass) = anyClass ts
  | [] => rfl
  | t :: ts => by
    rw [sitesOf, List.any_append, Tree.any_isClass_sites run around t,
      Tree.any_isClass_sitesOf _ around ts, anyClass]

end

theorem Tree.readings_sites_of_classless (heard : String → Bool) (run : List Tree)
    (around : Option (Tree × List Tree)) {t : Tree} (h : t.hasClass = false) :
    Site.readings heard (t.sites run around) = [] := by
  rw [← Tree.any_isClass_sites run around, List.any_eq_false] at h
  rw [Site.readings, List.filter_eq_nil_iff.mpr h, List.map_nil]

theorem Tree.hasClass_eq_false_iff (t : Tree) : t.hasClass = false ↔ t.declarations = [] := by
  rw [← Tree.any_isClass_sites [] none, ← Tree.map_site_walk, List.any_map, List.any_eq_false,
    Tree.declarations, List.map_eq_nil_iff, List.filter_eq_nil_iff]
  rfl

/-! ## 2. Surroundings -/

/-- What stands around the siblings `ts` in the tree, with the comments `run` right before them, and
around those in the thinned tree, at the place `p`: the export that they are in, before (`around`)
and after (`around'`). -/
structure Alike (heard : String → Bool) (p : Place) (ts run : List Tree)
    (around around' : Option (Tree × List Tree)) : Prop where
  signs : (Site.aroundDecorators around').filterMap sign? =
    (Site.aroundDecorators around).filterMap sign?
  outer : firstHeard heard (Site.aroundComments around') =
    firstHeard heard (Site.aroundComments around)
  /-- The comments right before the next export or class, where these document it. -/
  ahead : p.documentsNext ts = true → firstHeard heard p.run.reverse = firstHeard heard run.reverse
  /-- The class of an export hears the comments that the export begins with, so that it does not
  matter where they stand. -/
  behind : p.kind = .exportStatement → p.atFront = true →
    firstHeard heard (Site.aroundComments around) = none →
    firstHeard heard run.reverse = none ∧ firstHeard heard p.run.reverse = none ∧
      firstHeard heard (leading ts) = none

/-- What two sites must share for the readings below to agree: an export, the comments before it,
and a class, its reading. -/
structure Site.Agree (heard : String → Bool) (t u : Tree) (run run' : List Tree)
    (around around' : Option (Tree × List Tree)) : Prop where
  run_eq : t.kind = .exportStatement →
    firstHeard heard run'.reverse = firstHeard heard run.reverse
  reading_eq : t.kind.isClass = true →
    (Site.mk u run' around').reading heard = (Site.mk t run around).reading heard

namespace Tree

theorem documentsNext_cons_of_comment {t : Tree} (p : Place) (ts : List Tree)
    (h : t.kind = .comment ∨ t.kind = .token) :
    p.documentsNext (t :: ts) = p.documentsNext ts := by
  unfold Place.documentsNext behindComments?
  rw [List.map_cons, List.find?_cons_of_neg]
  rcases h with h | h <;> rw [h] <;> decide

/-- Comments document an export or a class that they stand right before. -/
theorem documentsNext_cons {t : Tree} {p : Place} (ts : List Tree)
    (h : t.kind = .exportStatement ∨ t.kind.isClass = true)
    (hfar : ¬ (p.kind = .exportStatement ∧ p.atFront = true) ∨ t.kind = .exportStatement) :
    p.documentsNext (t :: ts) = true := by
  have hbehind : behindComments? (t :: ts) = some t.kind := by
    unfold behindComments?
    rw [List.map_cons, List.find?_cons_of_pos]
    rcases h with h | h
    · rw [h]
      rfl
    · generalize t.kind = k at h ⊢
      cases k <;> first | rfl | exact absurd h Bool.false_ne_true
  rw [Place.documentsNext, hbehind, Option.any_some]
  simp only [Bool.or_eq_true, Bool.and_eq_true, beq_iff_eq, Bool.not_eq_true',
    Bool.and_eq_false_iff, beq_eq_false_iff_ne]
  rcases h with h | h
  · exact .inl h
  · refine hfar.symm.imp_right fun hfar => ⟨h, ?_⟩
    by_cases hk : p.kind = .exportStatement
    · exact .inr (Bool.eq_false_iff.mpr fun hfront => hfar ⟨hk, hfront⟩)
    · exact .inl hk

theorem extendRun_comment {t : Tree} (run : List Tree) (h : t.kind = .comment) :
    t.extendRun run = t :: run := by
  unfold extendRun isNamed isComment
  rw [h]
  rfl

theorem extendRun_other {t : Tree} (run : List Tree) (hnamed : t.isNamed = true)
    (hcomment : t.kind ≠ .comment) : t.extendRun run = [] := by
  rw [extendRun, if_pos hnamed, if_neg (by rwa [isComment_iff])]

theorem extendRun_token {t : Tree} (run : List Tree) (h : t.kind = .token) :
    t.extendRun run = run := by
  rw [extendRun, if_neg (by rwa [isNamed_iff, not_not])]

end Tree

namespace Alike

variable {p : Place} {t u : Tree} {ts run run' : List Tree}
  {around around' : Option (Tree × List Tree)}

theorem enter (h : Thinned heard t u)
    (hrun : t.kind = .exportStatement →
      firstHeard heard run'.reverse = firstHeard heard run.reverse) :
    Alike heard (.behindAll t.kind t.label []) t.children [] (aroundChildren run t)
      (aroundChildren run' u) := by
  unfold aroundChildren
  rw [h.kind_eq]
  by_cases hk : t.kind = .exportStatement
  · rw [if_pos hk, if_pos hk]
    constructor
    case signs => exact h.signs_eq
    case outer =>
      show firstHeard _ (run'.reverse ++ _) = firstHeard _ (run.reverse ++ _)
      rw [firstHeard_append, firstHeard_append, hrun hk, h.firstHeard_leadingComments]
    case ahead => exact fun _ => rfl
    case behind =>
      intro _ _ hnone
      rw [Site.aroundComments, firstHeard_append, Option.or_eq_none_iff] at hnone
      exact ⟨rfl, rfl, hnone.2⟩
  · rw [if_neg hk, if_neg hk]
    exact ⟨rfl, rfl, fun _ => rfl, fun hexport => absurd hexport hk⟩

/-- A node is passed over that is missing in the thinned tree. -/
theorem pass (h : Alike heard p (t :: ts) run around around') (ht : t.IsSilent heard)
    (hplace : t.kind = .decorator → p.takesDecorator heard ts = true) :
    Alike heard p ts (t.extendRun run) around around' := by
  have hahead := h.ahead
  have hbehind := h.behind
  rw [leading_cons, if_pos ht.leads] at hbehind
  obtain ⟨hk, hunheard⟩ | ⟨hk, -⟩ := ht.kind
  · -- a comment that is not heard may join the others
    rw [documentsNext_cons_of_comment p ts (.inl hk)] at hahead
    rw [if_pos ((isComment_iff t).mpr hk), firstHeard_cons, hunheard] at hbehind
    rw [extendRun_comment run hk]
    refine ⟨h.signs, h.outer, fun hnext => ?_, fun hexport hfront hnone => ?_⟩
    · rw [List.reverse_cons, firstHeard_append_unheard _ hunheard]
      exact hahead hnext
    · rw [List.reverse_cons, firstHeard_append_unheard _ hunheard]
      exact hbehind hexport hfront hnone
  · -- a decorator parts the comments before it from what follows, only in the tree that has it
    have hnamed : t.isNamed = true := by
      rw [isNamed_iff, hk]
      decide
    have hcomment : t.kind ≠ .comment := by
      rw [hk]
      decide
    rw [if_neg (by rwa [isComment_iff])] at hbehind
    rw [extendRun_other run hnamed hcomment]
    refine ⟨h.signs, h.outer, fun hnext => ?_, fun hexport hfront hnone => ?_⟩
    · have htakes := (Bool.and_eq_true _ _ ▸ hplace hk).2
      rw [hnext, Bool.true_and, Bool.not_eq_true'] at htakes
      exact firstHeard_eq_none htakes
    · obtain ⟨-, hrun', hrest⟩ := hbehind hexport hfront hnone
      exact ⟨rfl, hrun', hrest⟩

/-- A node is passed that both trees have. -/
theorem step (h : Alike heard p (t :: ts) run around around') (ht : Thinned heard t u) :
    Alike heard (p.behind u) ts (t.extendRun run) around around' := by
  have hahead := h.ahead
  have hbehind := h.behind
  have hfront (hf : (p.behind u).atFront = true) : p.atFront = true ∧ t.kind.leads = true := by
    rw [← ht.kind_eq]
    exact (Bool.and_eq_true _ _).mp hf
  by_cases hcomment : t.kind = .comment
  · have hrun : (p.behind u).run = u :: p.run :=
      extendRun_comment p.run (ht.kind_eq.trans hcomment)
    have hnext : p.documentsNext ts = (p.behind u).documentsNext ts := by
      unfold Place.documentsNext Place.behind
      rw [ht.kind_eq, hcomment, show Kind.leads .comment = true from rfl, Bool.and_true]
    rw [documentsNext_cons_of_comment p ts (.inl hcomment), hnext] at hahead
    rw [leading_cons, if_pos (by rw [hcomment]; rfl), if_pos ((isComment_iff t).mpr hcomment)]
      at hbehind
    rw [extendRun_comment run hcomment]
    refine ⟨h.signs, h.outer, fun hnext => ?_, fun hexport hf hnone => ?_⟩
    · rw [hrun, List.reverse_cons, List.reverse_cons]
      exact firstHeard_append_comment ht hcomment (hahead hnext)
    · -- where the export hears nothing this comment is not heard
      obtain ⟨hbefore, hbefore', hrest⟩ := hbehind hexport (hfront hf).1 hnone
      rw [firstHeard_cons] at hrest
      have hunheard : heard t.text = false := by
        by_contra hyes
        rw [if_pos ((Bool.not_eq_false _).mp hyes)] at hrest
        exact Option.some_ne_none _ hrest
      rw [hunheard, if_neg Bool.false_ne_true] at hrest
      rw [hrun, List.reverse_cons, List.reverse_cons, firstHeard_append_unheard _ hunheard,
        firstHeard_append_unheard _ (by rw [ht.text_eq_of_comment hcomment, hunheard])]
      exact ⟨hbefore, hbefore', hrest⟩
  · have hplain : ¬ t.isComment = true := by rwa [isComment_iff]
    by_cases hnamed : t.isNamed = true
    · -- no comments stand before what follows
      have hrun : (p.behind u).run = [] :=
        extendRun_other p.run (ht.isNamed_eq.trans hnamed) (by rwa [ht.kind_eq])
      rw [extendRun_other run hnamed hcomment]
      refine ⟨h.signs, h.outer, fun _ => by rw [hrun], fun hexport hf hnone => ?_⟩
      obtain ⟨hf, hleads⟩ := hfront hf
      rw [leading_cons, if_pos hleads, if_neg hplain] at hbehind
      rw [hrun]
      exact ⟨rfl, rfl, (hbehind hexport hf hnone).2.2⟩
    · -- punctuation does not count
      have hk : t.kind = .token := by rwa [isNamed_iff, not_not] at hnamed
      have hsame : p.behind u = p := by
        unfold Place.behind
        rw [extendRun_token p.run (ht.kind_eq.trans hk), ht.kind_eq, hk,
          show Kind.leads .token = true from rfl, Bool.and_true]
      rw [documentsNext_cons_of_comment p ts (.inr hk)] at hahead
      rw [leading_cons, if_pos (by rw [hk]; rfl), if_neg hplain] at hbehind
      rw [extendRun_token run hk, hsame]
      exact ⟨h.signs, h.outer, hahead, hbehind⟩

theorem firstHeard_comments (h : Alike heard p (t :: ts) run around around')
    (ht : t.kind = .exportStatement ∨ t.kind.isClass = true) :
    firstHeard heard (Site.aroundComments around' ++ p.run.reverse) =
      firstHeard heard (Site.aroundComments around ++ run.reverse) := by
  rw [firstHeard_append, firstHeard_append, h.outer]
  by_cases hnear : p.kind = .exportStatement ∧ p.atFront = true
  · -- the export hears all comments before its class
    cases hfound : firstHeard heard (Site.aroundComments around) with
    | some s => rfl
    | none =>
      obtain ⟨hrun, hrun', -⟩ := h.behind hnear.1 hnear.2 hfound
      rw [hrun, hrun']
  · rw [h.ahead (documentsNext_cons ts ht (.inl hnear))]

theorem reading_eq (h : Alike heard p (t :: ts) run around around') (hu : Thinned heard t u)
    (ht : t.kind.isClass = true) :
    (Site.mk u p.run around').reading heard = (Site.mk t run around).reading heard := by
  have hsigns : (Site.mk u p.run around').decoratorNodes.filterMap sign? =
      (Site.mk t run around).decoratorNodes.filterMap sign? := by
    unfold Site.decoratorNodes
    rw [List.filterMap_append, List.filterMap_append, h.signs, hu.signs_eq]
  have hcomments : firstHeard heard (Site.mk u p.run around').comments =
      firstHeard heard (Site.mk t run around).comments := by
    unfold Site.comments
    rw [← List.append_assoc, ← List.append_assoc, firstHeard_append,
      firstHeard_append _ (_ ++ run.reverse), h.firstHeard_comments (.inr ht),
      hu.firstHeard_leadingComments]
  unfold Site.reading Doc.among
  rw [hsigns, hcomments, hu.readings_members]

theorem agree (h : Alike heard p (t :: ts) run around around') (hu : Thinned heard t u) :
    Site.Agree heard t u run p.run around around' where
  run_eq hexport := h.ahead (documentsNext_cons ts (.inl hexport) (.inr hexport))
  reading_eq := h.reading_eq hu

theorem root (t : Tree) : Alike heard (.behindAll .program none []) [t] [] none none :=
  ⟨rfl, rfl, fun _ => rfl, nofun⟩

end Alike

/-! ## 3. The walks -/

mutual

theorem Tree.readings_sites_thinned {run run' : List Tree}
    {around around' : Option (Tree × List Tree)} {u : Tree} :
    ∀ t : Tree, Thinned heard t u → Site.Agree heard t u run run' around around' →
      Site.readings heard (u.sites run' around') = Site.readings heard (t.sites run around)
  | .node k l s cs, ht, h => by
    have hchildren := Tree.readings_sitesOf_thinned cs ht.children (Alike.enter ht h.run_eq)
    rw [Tree.readings_sites, Tree.readings_sites, ht.kind_eq, kind_node, children_node]
    rw [show Site.readings heard (sitesOf [] (aroundChildren run' u) u.children) = _
      from hchildren]
    by_cases hclass : k.isClass = true
    · rw [if_pos hclass, if_pos hclass, h.reading_eq hclass]
    · rw [if_neg hclass, if_neg hclass]

theorem Tree.readings_sitesOf_thinned {run : List Tree} {p : Place}
    {around around' : Option (Tree × List Tree)} {us : List Tree} :
    ∀ ts : List Tree, ThinnedAmong heard (Thinned heard) p ts us →
      Alike heard p ts run around around' →
      Site.readings heard (sitesOf p.run around' us) =
        Site.readings heard (sitesOf run around ts)
  | [], .nil, _ => rfl
  | t :: ts, .keep ht hts, h => by
    have hrest := Tree.readings_sitesOf_thinned ts hts (h.step ht)
    rw [sitesOf, sitesOf, Site.readings_append, Site.readings_append,
      Tree.readings_sites_thinned t ht (h.agree ht)]
    exact congrArg _ hrest
  | t :: ts, .drop ht hplace hts, h => by
    rw [Tree.readings_sitesOf_thinned ts hts (h.pass ht hplace), sitesOf, Site.readings_append,
      Tree.readings_sites_of_classless _ _ _ ht.classless, List.nil_append]

end

/-- Thinning leaves the readings of a tree as they are. -/
theorem Tree.Thinned.readings_eq {t u : Tree} (h : Thinned heard t u) :
    u.readings heard = t.readings heard :=
  Tree.readings_sites_thinned t h ((Alike.root t).agree h)

end MarkupCatalog

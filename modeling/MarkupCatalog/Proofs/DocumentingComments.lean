import MarkupCatalog.Proofs.ClassBodies
import MarkupCatalog.Proofs.Siblings

/-!
# Documenting comments

The comments that may document a class stand right before the class or right before the export
around it, or among the decorators that either of the two begins with.  The documentation comment
that comes first of all of these in the source is the documentation of the class.
-/

namespace MarkupCatalog

namespace Cursor

/-! ## 1. The comments of a place -/

/-- Nothing but comments and punctuation stands between the place and its later sibling `c`. -/
def RunsUpTo (x c : Cursor) : Prop :=
  ∃ gap, x.IsAhead c gap ∧ ∀ t ∈ gap, t.isNamed = true → t.isComment = true

/-- Nothing but comments, decorators and punctuation stands before the place in the node at `c`. -/
def Heads (x c : Cursor) : Prop := x.parent? = some c ∧ ∀ t ∈ x.before, t.kind.leads = true

/-- What stands at the front of the elements that `q` keeps, up to the first of them without `p`. -/
theorem mem_takeWhile_filter_iff {α : Type} {p q : α → Bool} {l : List α} {x : α} :
    x ∈ (l.filter q).takeWhile p ↔
      ∃ front back, l = front ++ x :: back ∧ q x = true ∧ p x = true ∧
        ∀ y ∈ front, q y = true → p y = true := by
  constructor
  · intro hx
    obtain ⟨us, vs, htake⟩ := List.append_of_mem hx
    have hfilter : l.filter q = us ++ x :: (vs ++ (l.filter q).dropWhile p) := by
      conv_lhs => rw [← List.takeWhile_append_dropWhile (p := p) (l := l.filter q), htake]
      simp
    obtain ⟨front, back, hl, hq, rfl, -⟩ := Member.exists_place hfilter
    refine ⟨front, back, hl, hq, List.mem_takeWhile_imp hx, fun y hy hqy => ?_⟩
    apply List.mem_takeWhile_imp (l := l.filter q)
    rw [htake]
    exact List.mem_append_left _ (List.mem_filter.mpr ⟨hy, hqy⟩)
  · rintro ⟨front, back, rfl, hq, hp, hfront⟩
    have hkept : ∀ y ∈ front.filter q ++ [x], p y = true := by
      intro y hy
      rcases List.mem_append.mp hy with hy | hy
      · exact hfront y (List.mem_filter.mp hy).1 (List.mem_filter.mp hy).2
      · rw [List.mem_singleton.mp hy]
        exact hp
    rw [List.filter_append, List.filter_cons_of_pos hq, ← List.singleton_append,
      ← List.append_assoc, List.takeWhile_append_of_pos hkept]
    simp

/-- The places of the comments right before a place. -/
def runPlaces (c : Cursor) : List Cursor :=
  ((c.ahead.reverse.filter fun x => x.focus.isNamed).takeWhile fun x => x.focus.isComment).reverse

/-- The places of the comments among the first decorators of a node. -/
def headPlaces (c : Cursor) : List Cursor :=
  ((c.childPlaces.filter fun x => x.focus.isNamed).takeWhile fun x =>
    x.focus.kind == .comment || x.focus.kind == .decorator).filter fun x => x.focus.isComment

def commentPlaces (c : Cursor) : List Cursor := c.runPlaces ++ c.headPlaces

theorem map_focus_commentPlaces (c : Cursor) :
    c.commentPlaces.map focus = Declaration.commentsAt c := by
  have hrun : c.runPlaces.map focus =
      ((c.before.filter Tree.isNamed).takeWhile Tree.isComment).reverse := by
    have hahead : c.ahead.reverse.map focus = c.before := by
      rw [ahead, List.map_reverse, map_focus_standing, List.reverse_reverse]
    rw [← hahead, List.filter_map, List.takeWhile_map, ← List.map_reverse]
    rfl
  have hhead : c.headPlaces.map focus = c.focus.leadingComments := by
    have hchildren : c.childPlaces.map focus = c.focus.children := map_focus_standing _ _ _ _
    rw [Tree.leadingComments, Tree.namedChildren, ← hchildren, List.filter_map, List.takeWhile_map,
      List.filter_map]
    rfl
  rw [commentPlaces, List.map_append, hrun, hhead]
  rfl

theorem isNamed_of_isComment {t : Tree} (h : t.isComment = true) : t.isNamed = true := by
  rw [Tree.isComment_iff] at h
  rw [Tree.isNamed_iff, h]
  decide

theorem mem_runPlaces_iff (x c : Cursor) :
    x ∈ c.runPlaces ↔ x.focus.isComment = true ∧ x.RunsUpTo c := by
  rw [runPlaces, List.mem_reverse, mem_takeWhile_filter_iff]
  unfold RunsUpTo
  constructor
  · rintro ⟨front, back, hsplit, -, hcomment, hfront⟩
    refine ⟨hcomment, _, ahead_eq_append_iff.mp ⟨front, back, hsplit, rfl⟩, ?_⟩
    exact List.forall_mem_map.mpr hfront
  · rintro ⟨hcomment, gap, hgap, hrun⟩
    obtain ⟨front, back, hsplit, rfl⟩ := ahead_eq_append_iff.mpr hgap
    have hfront := List.forall_mem_map.mp hrun
    exact ⟨front, back, hsplit, isNamed_of_isComment hcomment, hcomment, hfront⟩

theorem mem_headPlaces_iff (x c : Cursor) :
    x ∈ c.headPlaces ↔ x.focus.isComment = true ∧ x.Heads c := by
  have hleads (t : Tree) : t.kind.leads = true ↔
      (t.isNamed = true → (t.kind == .comment || t.kind == .decorator) = true) := by
    unfold Tree.isNamed
    cases t.kind <;> decide
  rw [headPlaces, List.mem_filter, mem_takeWhile_filter_iff]
  unfold Heads
  simp only [hleads]
  constructor
  · rintro ⟨⟨front, back, hsplit, -, -, hfront⟩, hcomment⟩
    obtain ⟨hparent, hbefore⟩ := parent?_of_childPlaces hsplit
    refine ⟨hcomment, hparent, ?_⟩
    rw [hbefore]
    intro t ht
    obtain ⟨y, hy, rfl⟩ := List.mem_map.mp (List.mem_reverse.mp ht)
    exact hfront y hy
  · rintro ⟨hcomment, hparent, hlead⟩
    obtain ⟨front, back, hsplit⟩ := childPlaces_of_parent? hparent
    obtain ⟨-, hbefore⟩ := parent?_of_childPlaces hsplit
    have hkind : (x.focus.kind == .comment || x.focus.kind == .decorator) = true := by
      rw [(Tree.isComment_iff _).mp hcomment]
      rfl
    refine ⟨⟨front, back, hsplit, isNamed_of_isComment hcomment, hkind, fun y hy => ?_⟩, hcomment⟩
    apply hlead
    rw [hbefore]
    exact List.mem_reverse.mpr (List.mem_map_of_mem hy)

theorem mem_commentPlaces_iff (x c : Cursor) :
    x ∈ c.commentPlaces ↔ x.focus.isComment = true ∧ (x.RunsUpTo c ∨ x.Heads c) := by
  rw [commentPlaces, List.mem_append, mem_runPlaces_iff, mem_headPlaces_iff, ← and_or_left]

/-- The comments of a place are gathered in source order. -/
theorem pairwise_commentPlaces (c : Cursor) : c.commentPlaces.Pairwise Precedes := by
  rw [commentPlaces, List.pairwise_append]
  refine ⟨?_, ?_, fun x hx y hy => ?_⟩
  · have hsub : c.runPlaces.Sublist c.ahead := by
      rw [runPlaces, ← List.reverse_sublist, List.reverse_reverse]
      exact (List.takeWhile_sublist _).trans List.filter_sublist
    exact (pairwise_standing _ _ _ _).sublist hsub
  · have hsub : c.headPlaces.Sublist c.childPlaces :=
      List.filter_sublist.trans ((List.takeWhile_sublist _).trans List.filter_sublist)
    exact (pairwise_standing _ _ _ _).sublist hsub
  · -- the former stand before the node, and the latter in it
    obtain ⟨-, gap, hgap, -⟩ := (mem_runPlaces_iff x c).mp hx
    obtain ⟨-, hparent, -⟩ := (mem_headPlaces_iff y c).mp hy
    exact hgap.precedes.trans (precedes_of_parent? hparent)

end Cursor

/-! ## 2. Comments of an export and comments of its class -/

namespace Cursor

/-- A comment among the first decorators comes before a child that does not lead, or that stands
behind one that does not lead. -/
theorem Heads.precedes {x y c : Cursor} (hx : x.Heads c) (hcomment : x.focus.isComment = true)
    (hy : y.parent? = some c) {t : Tree} (ht : t ∈ y.focus :: y.before)
    (hleads : ¬ t.kind.leads = true) : x.Precedes y := by
  have hfront : ∀ u ∈ x.focus :: x.before, u.kind.leads = true := by
    refine List.forall_mem_cons.mpr ⟨?_, hx.2⟩
    rw [(Tree.isComment_iff _).mp hcomment]
    rfl
  rcases isAhead_cases hx.1 hy with rfl | ⟨gap, h⟩ | ⟨gap, h⟩
  · exact absurd (hfront t ht) hleads
  · exact h.precedes
  · -- the child that does not lead would stand before the comment
    have hmem : t ∈ x.before := by
      rw [h.before]
      exact List.mem_append_right _ ht
    exact absurd (hx.2 t hmem) hleads

/-- A comment of the node at `d` is also one of the node around it, or comes behind all of those. -/
theorem mem_or_precedes_commentPlaces {c d : Cursor} (hparent : d.parent? = some c)
    (hclass : ¬ d.focus.kind.leads = true) {y : Cursor} (hy : y ∈ d.commentPlaces) :
    y ∈ c.commentPlaces ∨ ∀ x ∈ c.commentPlaces, x.Precedes y := by
  obtain ⟨hcomment, hplace⟩ := (mem_commentPlaces_iff y d).mp hy
  rcases hplace with ⟨gap, hgap, -⟩ | ⟨hyparent, -⟩
  · -- a sibling of `d` heads the node around it, or something that does not lead stands before it
    have hyparent : y.parent? = some c := hgap.parent?.trans hparent
    by_cases hall : ∀ t ∈ y.before, t.kind.leads = true
    · left
      exact (mem_commentPlaces_iff y c).mpr ⟨hcomment, .inr ⟨hyparent, hall⟩⟩
    · right
      intro x hx
      obtain ⟨hxcomment, ⟨xgap, hxgap, -⟩ | hhead⟩ := (mem_commentPlaces_iff x c).mp hx
      · exact hxgap.precedes.trans (precedes_of_parent? hyparent)
      · simp only [not_forall] at hall
        obtain ⟨t, ht, hleads⟩ := hall
        exact hhead.precedes hxcomment hyparent (List.mem_cons_of_mem _ ht) hleads
  · right
    intro x hx
    have hinside : d.Precedes y := precedes_of_parent? hyparent
    obtain ⟨hxcomment, ⟨xgap, hxgap, -⟩ | hhead⟩ := (mem_commentPlaces_iff x c).mp hx
    · exact hxgap.precedes.trans ((precedes_of_parent? hparent).trans hinside)
    · exact (hhead.precedes hxcomment hparent List.mem_cons_self hclass).trans hinside

/-- What is found first in two lists in source order, of which the second goes back to what the
first has, comes before all else in both. -/
theorem least_of_find?_append {cs ds : List Cursor} (hcs : cs.Pairwise Precedes)
    (hds : ds.Pairwise Precedes) (hmem : ∀ d ∈ ds, d ∈ cs ∨ ∀ c ∈ cs, c.Precedes d)
    {p : Cursor → Bool} {x b : Cursor} (h : (cs ++ ds).find? p = some x) (hb : b ∈ cs ++ ds)
    (hp : p b = true) : b = x ∨ x.Precedes b := by
  rw [List.find?_append] at h
  -- the first list decides wherever it has something that `p` accepts
  cases hfirst : cs.find? p with
  | some c =>
    rw [hfirst] at h
    obtain rfl : c = x := Option.some.inj h
    have hc : c ∈ cs := List.mem_of_find?_eq_some hfirst
    rcases List.mem_append.mp hb with hb | hb
    · exact least_of_find? hcs hfirst hb hp
    · rcases hmem b hb with hb | hb
      · exact least_of_find? hcs hfirst hb hp
      · exact .inr (hb c hc)
  | none =>
    rw [hfirst, Option.none_or] at h
    rcases List.mem_append.mp hb with hb | hb
    · exact absurd hp (List.find?_eq_none.mp hfirst b hb)
    · exact least_of_find? hds h hb hp

end Cursor

/-! ## 3. The documentation of a class -/

namespace Declaration

/-- A comment which may document the class: it belongs to the run of comments right before the
anchor or right before the class, or stands among the decorators at the head of one of the two. -/
structure MayDocument (d : Declaration) (x : Cursor) : Prop where
  isComment : x.focus.isComment = true
  place : x.RunsUpTo d.anchor ∨ x.Heads d.anchor ∨ x.RunsUpTo d.place ∨ x.Heads d.place

/-- The places of the comments of a class, those of its export first. -/
def commentPlaces (d : Declaration) : List Cursor :=
  (d.export?.map Cursor.commentPlaces).getD [] ++ d.place.commentPlaces

theorem map_focus_commentPlaces (d : Declaration) :
    d.commentPlaces.map Cursor.focus = d.comments := by
  unfold commentPlaces comments
  rw [List.map_append, Cursor.map_focus_commentPlaces]
  cases d.export? with
  | none => rfl
  | some p => rw [Option.map_some, Option.getD_some, Cursor.map_focus_commentPlaces]

theorem mem_commentPlaces_iff (d : Declaration) (x : Cursor) :
    x ∈ d.commentPlaces ↔ d.MayDocument x := by
  have hiff : d.MayDocument x ↔ x.focus.isComment = true ∧
      (x.RunsUpTo d.anchor ∨ x.Heads d.anchor ∨ x.RunsUpTo d.place ∨ x.Heads d.place) :=
    ⟨fun h => ⟨h.isComment, h.place⟩, fun h => ⟨h.1, h.2⟩⟩
  rw [hiff, commentPlaces, List.mem_append, Cursor.mem_commentPlaces_iff, anchor]
  cases d.export? with
  | none => simp; tauto
  | some p =>
    rw [Option.map_some, Option.getD_some, Option.getD_some, Cursor.mem_commentPlaces_iff]
    tauto

theorem doc?_eq_find? (d : Declaration) :
    d.doc? = (d.commentPlaces.find? fun x => Doc.isDocComment x.focus.text).map fun x =>
      Doc.parse x.focus.text := by
  rw [doc?, ← map_focus_commentPlaces, Doc.first?, List.map_map, List.find?_map, Option.map_map]
  rfl

theorem parent?_of_export? {d : Declaration} {p : Cursor} (h : d.export? = some p) :
    d.place.parent? = some p := (Option.filter_eq_some_iff.mp h).1

theorem mem_declarations_iff (d : Declaration) (t : Tree) :
    d ∈ t.declarations ↔ d.place ∈ t.walk ∧ d.node.kind.isClass = true := by
  unfold Tree.declarations
  constructor
  · intro h
    obtain ⟨c, hc, rfl⟩ := List.mem_map.mp h
    exact List.mem_filter.mp hc
  · intro h
    exact List.mem_map.mpr ⟨d.place, List.mem_filter.mpr h, rfl⟩

theorem MayDocument.mem_walk {d : Declaration} {x : Cursor} {t : Tree} (h : d.MayDocument x)
    (hd : d.place ∈ t.walk) : x ∈ t.walk := by
  have hanchor : d.anchor ∈ t.walk := by
    unfold anchor
    cases hexport : d.export? with
    | none => exact hd
    | some p => exact (Cursor.mem_walk_of_parent? (parent?_of_export? hexport)).mp hd
  rcases h.place with ⟨gap, hgap, -⟩ | ⟨hparent, -⟩ | ⟨gap, hgap, -⟩ | ⟨hparent, -⟩
  · exact hgap.mem_walk hanchor
  · exact (Cursor.mem_walk_of_parent? hparent).mpr hanchor
  · exact hgap.mem_walk hd
  · exact (Cursor.mem_walk_of_parent? hparent).mpr hd

theorem least_of_find?_commentPlaces {d : Declaration} (hclass : d.node.kind.isClass = true)
    {p : Cursor → Bool} {x b : Cursor} (h : d.commentPlaces.find? p = some x)
    (hb : b ∈ d.commentPlaces) (hp : p b = true) : b = x ∨ x.Precedes b := by
  have hleads : ¬ d.place.focus.kind.leads = true := by
    intro hleads
    unfold node at hclass
    rcases Kind.leads_cases hleads with hk | hk | hk <;> rw [hk] at hclass <;>
      exact absurd hclass (by decide)
  unfold commentPlaces at h hb
  cases hexport : d.export? with
  | none =>
    rw [hexport] at h hb
    exact Cursor.least_of_find? d.place.pairwise_commentPlaces h hb hp
  | some c =>
    rw [hexport] at h hb
    refine Cursor.least_of_find?_append c.pairwise_commentPlaces d.place.pairwise_commentPlaces
      (fun y hy => ?_) h hb hp
    exact Cursor.mem_or_precedes_commentPlaces (parent?_of_export? hexport) hleads hy

/-- It makes no difference that a comment is gathered twice: the same one is found among the places
that are gathered, each of them once and in source order. -/
theorem find?_commentPlaces {d : Declaration} (hclass : d.node.kind.isClass = true)
    {once : List Cursor} (honce : once.Pairwise Cursor.Precedes)
    (hmem : ∀ x, x ∈ once ↔ d.MayDocument x) (p : Cursor → Bool) :
    d.commentPlaces.find? p = once.find? p := by
  have hsame (x : Cursor) : x ∈ d.commentPlaces ↔ x ∈ once :=
    (mem_commentPlaces_iff d x).trans (hmem x).symm
  cases h : d.commentPlaces.find? p with
  | none =>
    symm
    rw [List.find?_eq_none] at h ⊢
    exact fun x hx => h x ((hsame x).mpr hx)
  | some c =>
    symm
    apply Cursor.find?_eq_some_of_least honce
    · exact (hsame c).mp (List.mem_of_find?_eq_some h)
    · exact List.find?_some h
    · exact fun b hb hp => least_of_find?_commentPlaces hclass h ((hsame b).mpr hb) hp

/-- Another node keeps the comment apart from the class: it stands between the comment and the
anchor or before the comment in the class, or the comment stands in the export between two such
nodes. -/
inductive IsCutOff (d : Declaration) (x : Cursor) : Prop
  | ahead {gap : List Tree} {t : Tree} (place : x.IsAhead d.anchor gap) (between : t ∈ gap)
      (named : t.isNamed = true) (other : ¬ t.isComment = true)
  | inside {t : Tree} (place : x.parent? = some d.place) (before : t ∈ x.before)
      (other : ¬ t.kind.leads = true)
  | inExport {gap : List Tree} {t u : Tree} (place : x.IsAhead d.place gap) (between : t ∈ gap)
      (named : t.isNamed = true) (other : ¬ t.isComment = true) (before : u ∈ x.before)
      (otherBefore : ¬ u.kind.leads = true)

end Declaration

namespace Cursor

theorem length_above_of_parent? {x c : Cursor} (h : x.parent? = some c) :
    x.above.length = c.above.length + 1 := by
  rw [((parent?_eq_some_iff x c).mp h).1, List.length_cons]

theorem RunsUpTo.length_above {x c : Cursor} (h : x.RunsUpTo c) :
    x.above.length = c.above.length := by
  obtain ⟨gap, hgap, -⟩ := h
  rw [hgap.above]

theorem Heads.length_above {x c : Cursor} (h : x.Heads c) : x.above.length = c.above.length + 1 :=
  length_above_of_parent? h.1

theorem IsAhead.not_runsUpTo {x c : Cursor} {gap : List Tree} {t : Tree} (h : x.IsAhead c gap)
    (ht : t ∈ gap) (hnamed : t.isNamed = true) (hother : ¬ t.isComment = true) :
    ¬ x.RunsUpTo c := by
  rintro ⟨gap', h', hrun⟩
  have hgap : gap = gap' := List.append_cancel_right (h.before.symm.trans h'.before)
  exact hother (hrun t (hgap ▸ ht) hnamed)

end Cursor

namespace Declaration

theorem length_above_anchor (d : Declaration) :
    d.anchor = d.place ∨ d.place.above.length = d.anchor.above.length + 1 := by
  unfold anchor
  cases hexport : d.export? with
  | none => exact .inl rfl
  | some p => exact .inr (Cursor.length_above_of_parent? (parent?_of_export? hexport))

namespace MayDocument

variable {d : Declaration} {x : Cursor} (h : d.MayDocument x)

include h

/-! How many nodes are around a comment leaves only some of the places that it may have. -/

theorem place_above :
    (x.RunsUpTo d.anchor ∧ x.above.length = d.anchor.above.length) ∨
      (x.Heads d.anchor ∧ x.above.length = d.anchor.above.length + 1) ∨
      (x.RunsUpTo d.place ∧ x.above.length = d.place.above.length) ∨
      (x.Heads d.place ∧ x.above.length = d.place.above.length + 1) := by
  rcases h.place with h | h | h | h
  · exact .inl ⟨h, h.length_above⟩
  · exact .inr (.inl ⟨h, h.length_above⟩)
  · exact .inr (.inr (.inl ⟨h, h.length_above⟩))
  · exact .inr (.inr (.inr ⟨h, h.length_above⟩))

theorem runsUpTo_anchor (hdepth : x.above.length = d.anchor.above.length) :
    x.RunsUpTo d.anchor := by
  have hplace := h.place_above
  rcases d.length_above_anchor with heq | hanchor
  · rw [heq] at hdepth hplace ⊢
    rcases hplace with h | h | h | h
    · exact h.1
    · omega
    · exact h.1
    · omega
  · rcases hplace with h | h | h | h
    · exact h.1
    all_goals omega

theorem runsUpTo_or_heads (hdepth : x.above.length = d.place.above.length) :
    x.RunsUpTo d.place ∨ x.Heads d.anchor := by
  rcases h.place_above with h | h | h | h
  · rcases d.length_above_anchor with heq | hanchor
    · exact .inl (heq ▸ h.1)
    · omega
  · exact .inr h.1
  · exact .inl h.1
  · omega

theorem heads_place (hdepth : x.above.length = d.place.above.length + 1) : x.Heads d.place := by
  have hplace := h.place_above
  rcases d.length_above_anchor with heq | hanchor
  · rw [heq] at hplace
    rcases hplace with h | h | h | h
    · omega
    · exact h.1
    · omega
    · exact h.1
  · rcases hplace with h | h | h | h
    case inr.inr.inr => exact h.1
    all_goals omega

end MayDocument

/-- A comment that another node keeps apart from the class does not document it. -/
theorem IsCutOff.not_mayDocument {d : Declaration} {x : Cursor} (h : d.IsCutOff x) :
    ¬ d.MayDocument x := by
  intro hmay
  cases h with
  | ahead place between named other =>
    apply place.not_runsUpTo between named other
    apply hmay.runsUpTo_anchor
    rw [place.above]
  | inside place before other =>
    have hheads := hmay.heads_place (Cursor.length_above_of_parent? place)
    exact other (hheads.2 _ before)
  | inExport place between named other before otherBefore =>
    have hdepth : x.above.length = d.place.above.length := by rw [place.above]
    rcases hmay.runsUpTo_or_heads hdepth with hruns | hheads
    · exact place.not_runsUpTo between named other hruns
    · exact otherBefore (hheads.2 _ before)

/-- The documentation of a class is that of the documentation comment which comes first in the
source of all comments that may document it, and there is none if none of them is one.  To take each
of them once makes no difference, and a comment that is cut off from the class is none of them. -/
theorem doc?_earliest {t : Tree} {d : Declaration} (hd : d ∈ t.declarations) :
    (∀ doc, d.doc? = some doc ↔
      ∃ front x back, t.walk = front ++ x :: back ∧ d.MayDocument x ∧
        Doc.isDocComment x.focus.text = true ∧ doc = Doc.parse x.focus.text ∧
        ∀ b ∈ front, d.MayDocument b → ¬ Doc.isDocComment b.focus.text = true) ∧
    (d.doc? = none ↔ ∀ x, d.MayDocument x → ¬ Doc.isDocComment x.focus.text = true) ∧
    (∃ once : List Cursor, once.Sublist t.walk ∧ once.Nodup ∧ (∀ x, x ∈ once ↔ d.MayDocument x) ∧
      d.doc? = Doc.first? (once.map Cursor.focus)) ∧
    ∀ x, d.IsCutOff x → ¬ d.MayDocument x := by
  classical
  obtain ⟨hplace, hclass⟩ := (mem_declarations_iff d t).mp hd
  -- the comments once, in the order of the walk
  let once := t.walk.filter fun x => decide (d.MayDocument x)
  have hsub : once.Sublist t.walk := List.filter_sublist
  have hmem (x : Cursor) : x ∈ once ↔ d.MayDocument x := by
    rw [List.mem_filter, decide_eq_true_iff]
    exact and_iff_right_of_imp fun h => h.mem_walk hplace
  have hdoc : d.doc? = (once.find? fun x => Doc.isDocComment x.focus.text).map fun x =>
      Doc.parse x.focus.text := by
    rw [doc?_eq_find?, find?_commentPlaces hclass (t.pairwise_walk.sublist hsub) hmem]
  refine ⟨fun doc => ?_, ?_, ⟨once, hsub, t.nodup_walk.sublist hsub, hmem, ?_⟩,
    fun x => IsCutOff.not_mayDocument⟩
  · rw [hdoc, List.find?_filter, Option.map_eq_some_iff]
    simp only [List.find?_eq_some_iff_append, decide_eq_true_iff, Bool.not_eq_true',
      ← Bool.not_eq_true, not_and]
    constructor
    · rintro ⟨x, ⟨⟨hmay, hx⟩, front, back, hwalk, hfront⟩, rfl⟩
      exact ⟨front, x, back, hwalk, hmay, hx, rfl, hfront⟩
    · rintro ⟨front, x, back, hwalk, hmay, hx, rfl, hfront⟩
      exact ⟨x, ⟨⟨hmay, hx⟩, front, back, hwalk, hfront⟩, rfl⟩
  · rw [hdoc, Option.map_eq_none_iff, List.find?_eq_none]
    simp only [hmem]
  · rw [hdoc, Doc.first?, List.map_map, List.find?_map, Option.map_map]
    rfl

section Example

/-- An exported class in its place.  One comment stands before the export, but a statement keeps it
apart, and the other one stands between a decorator and the class. -/
def exportedClass : Declaration :=
  { place :=
      { focus := .leaf .classDeclaration "class"
        before :=
          [.leaf .token "export", .leaf .comment "/** B. */", .leaf .decorator "@Directive()"]
        after := []
        above :=
          [⟨.exportStatement, none, "", [.leaf .statement "f()", .leaf .comment "/** A. */"], []⟩,
            ⟨.program, none, "", [], []⟩] } }

theorem doc?_earliest_exportedClass :
    exportedClass ∈ exportedClass.place.top.declarations ∧
      exportedClass.doc? = some (Doc.ofSummary "B.") ∧
      ∃ front x back, exportedClass.place.top.walk = front ++ x :: back ∧
        exportedClass.MayDocument x ∧ Doc.isDocComment x.focus.text = true ∧
        Doc.ofSummary "B." = Doc.parse x.focus.text ∧
        ∀ b ∈ front, exportedClass.MayDocument b → ¬ Doc.isDocComment b.focus.text = true := by
  have hd : exportedClass ∈ exportedClass.place.top.declarations := by
    rw [mem_declarations_iff, Tree.mem_walk_iff]
    exact ⟨⟨rfl, rfl, rfl⟩, rfl⟩
  have hdoc : exportedClass.doc? = some (Doc.ofSummary "B.") := by decide
  exact ⟨hd, hdoc, ((doc?_earliest hd).1 _).mp hdoc⟩

end Example

end Declaration
end MarkupCatalog

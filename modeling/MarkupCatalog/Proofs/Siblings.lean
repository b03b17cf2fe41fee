import MarkupCatalog.Proofs.Positions

/-!
# Siblings and children

The places beside and below a place: the siblings before it and the children of its node.  Both are
places of the same tree, the former before the place in the source and the latter behind it.
-/

namespace MarkupCatalog.Cursor

/-! ## 1. Places beside and below a place -/

/-- The place of an earlier sibling, and the nodes between the two, from the later one back. -/
structure IsAhead (x c : Cursor) (gap : List Tree) : Prop where
  above : x.above = c.above
  before : c.before = gap ++ x.focus :: x.before
  after : x.after = gap.reverse ++ c.focus :: c.after

def frame (c : Cursor) : Frame := ⟨c.focus.kind, c.focus.label, c.focus.text, c.before, c.after⟩

theorem parent?_eq_some_iff (x c : Cursor) :
    x.parent? = some c ↔
      x.above = c.frame :: c.above ∧ c.focus.children = x.before.reverse ++ x.focus :: x.after := by
  obtain ⟨t, before, after, above⟩ := x
  obtain ⟨⟨k, l, s, cs⟩, cbefore, cafter, cabove⟩ := c
  cases above with
  | nil => simp [parent?]
  | cons f fs =>
    obtain ⟨fk, fl, fs', fbefore, fafter⟩ := f
    simp only [parent?, frame, Option.some.injEq, Cursor.mk.injEq, Tree.node.injEq, List.cons.injEq,
      Frame.mk.injEq, Tree.kind_node, Tree.label_node, Tree.text_node, Tree.children_node]
    constructor
    · rintro ⟨⟨rfl, rfl, rfl, rfl⟩, rfl, rfl, rfl⟩
      simp
    · rintro ⟨⟨⟨rfl, rfl, rfl, rfl, rfl⟩, rfl⟩, rfl⟩
      simp

theorem position_of_parent? {x c : Cursor} (h : x.parent? = some c) :
    x.position = c.position ++ [x.before.length] := by
  have habove := ((parent?_eq_some_iff x c).mp h).1
  unfold position
  rw [habove, Frame.positionOf_cons]
  rfl

theorem precedes_of_parent? {x c : Cursor} (h : x.parent? = some c) : c.Precedes x :=
  precedes_of_below (position_of_parent? h)

theorem IsAhead.precedes {x c : Cursor} {gap : List Tree} (h : x.IsAhead c gap) : x.Precedes c := by
  have hlt : x.before.length < c.before.length := by
    rw [h.before, List.length_append, List.length_cons]
    omega
  have hx : x.position = Frame.positionOf c.above ++ x.before.length :: [] := by
    unfold position
    rw [h.above]
  exact precedes_of_lt hlt hx rfl

theorem IsAhead.parent? {x c : Cursor} {gap : List Tree} (h : x.IsAhead c gap) :
    x.parent? = c.parent? := by
  unfold Cursor.parent?
  rw [h.above, h.before, h.after]
  cases c.above with
  | nil => rfl
  | cons f fs => simp

/-- Places that cut one list of siblings, if the cut at `x` does not lie behind the one at `y`. -/
theorem eq_or_isAhead {x y : Cursor} {m : List Tree} (habove : x.above = y.above)
    (hm : y.before.reverse = x.before.reverse ++ m)
    (hback : x.focus :: x.after = m ++ y.focus :: y.after) : x = y ∨ ∃ gap, x.IsAhead y gap := by
  cases m with
  | nil =>
    left
    obtain ⟨hfocus, hafter⟩ := List.cons.inj hback
    rw [List.append_nil, List.reverse_inj] at hm
    cases x
    cases y
    simp_all
  | cons t m =>
    right
    obtain ⟨rfl, hafter⟩ := List.cons.inj hback
    refine ⟨m.reverse, habove, ?_, ?_⟩
    · apply List.reverse_injective
      simp [hm]
    · rw [List.reverse_reverse]
      exact hafter

/-- Two children of one node are the same, or one of them is ahead of the other. -/
theorem isAhead_cases {x y c : Cursor} (hx : x.parent? = some c) (hy : y.parent? = some c) :
    x = y ∨ (∃ gap, x.IsAhead y gap) ∨ ∃ gap, y.IsAhead x gap := by
  obtain ⟨hxabove, hxs⟩ := (parent?_eq_some_iff x c).mp hx
  obtain ⟨hyabove, hys⟩ := (parent?_eq_some_iff y c).mp hy
  have habove : x.above = y.above := hxabove.trans hyabove.symm
  rcases List.append_eq_append_iff.mp (hxs.symm.trans hys) with ⟨m, hm, hback⟩ | ⟨m, hm, hback⟩
  · rcases eq_or_isAhead habove hm hback with h | h
    · exact .inl h
    · exact .inr (.inl h)
  · rcases eq_or_isAhead habove.symm hm hback with h | h
    · exact .inl h.symm
    · exact .inr (.inr h)

theorem IsAhead.mem_walk {x c : Cursor} {gap : List Tree} {t : Tree} (h : x.IsAhead c gap)
    (hc : c ∈ t.walk) : x ∈ t.walk := by
  rw [Tree.mem_walk_iff] at hc ⊢
  unfold Cursor.top Cursor.Rooted at hc ⊢
  rw [h.above]
  obtain ⟨htop, hrooted⟩ := hc
  cases habove : c.above with
  | nil =>
    -- the root has no siblings
    rw [habove] at hrooted
    have hbefore := h.before
    rw [hrooted.1] at hbefore
    exact absurd hbefore (by simp)
  | cons f fs =>
    rw [habove] at htop hrooted
    refine ⟨?_, hrooted⟩
    rw [← htop, Tree.rebuilt, Tree.rebuilt]
    congr 1
    unfold Frame.plug
    rw [h.before, h.after]
    simp

theorem mem_walk_of_parent? {x c : Cursor} {t : Tree} (h : x.parent? = some c) :
    x ∈ t.walk ↔ c ∈ t.walk := by
  rw [Tree.mem_walk_iff, Tree.mem_walk_iff]
  obtain ⟨habove, hchildren⟩ := (parent?_eq_some_iff x c).mp h
  unfold Cursor.top Cursor.Rooted
  have hplug : c.frame.plug x.before x.after x.focus = c.focus := by
    unfold Frame.plug frame
    rw [← hchildren]
    cases c.focus
    rfl
  rw [habove, Tree.rebuilt, hplug]
  rfl

/-! ## 2. Lists of siblings -/

/-- The nodes `ts` in their places between the siblings `before` (nearest first) and `after`. -/
def standing (above : List Frame) (before : List Tree) : List Tree → List Tree → List Cursor
  | [], _ => []
  | t :: ts, after => ⟨t, before, ts ++ after, above⟩ :: standing above (t :: before) ts after

theorem standing_append (above : List Frame) (before ts us after : List Tree) :
    standing above before (ts ++ us) after =
      standing above before ts (us ++ after) ++ standing above (ts.reverse ++ before) us after := by
  induction ts generalizing before with
  | nil => rfl
  | cons t ts ih => simp [standing, ih]

theorem map_focus_standing (above : List Frame) (before ts after : List Tree) :
    (standing above before ts after).map focus = ts := by
  induction ts generalizing before with
  | nil => rfl
  | cons t ts ih => rw [standing, List.map_cons, ih]

/-- What stands on the two sides of a place among those of the nodes `ts`. -/
theorem standing_eq_append_iff {above : List Frame} {before ts after front back : List Tree}
    {x : Cursor} :
    (∃ cs ds, standing above before ts after = cs ++ x :: ds ∧ cs.map focus = front ∧
        ds.map focus = back) ↔
      x.above = above ∧ x.before = front.reverse ++ before ∧ ts = front ++ x.focus :: back ∧
        x.after = back ++ after := by
  constructor
  · rintro ⟨cs, ds, hsplit, rfl, rfl⟩
    have hts : ts = cs.map focus ++ x.focus :: ds.map focus := by
      rw [← map_focus_standing above before ts after, hsplit, List.map_append, List.map_cons]
    rw [hts, standing_append] at hsplit
    have hlength : (standing above before (cs.map focus)
        (x.focus :: ds.map focus ++ after)).length = cs.length := by
      rw [← List.length_map focus, map_focus_standing, List.length_map]
    obtain ⟨hx, -⟩ := List.cons.inj (List.append_inj hsplit hlength).2
    refine ⟨?_, ?_, hts, ?_⟩ <;> rw [← hx]
  · rintro ⟨habove, hbefore, hts, hafter⟩
    have hx : (⟨x.focus, front.reverse ++ before, back ++ after, above⟩ : Cursor) = x := by
      cases x
      simp_all
    refine ⟨standing above before front (x.focus :: back ++ after),
      standing above (x.focus :: (front.reverse ++ before)) back after, ?_,
      map_focus_standing _ _ _ _, map_focus_standing _ _ _ _⟩
    rw [hts, standing_append, standing, hx]

theorem pairwise_standing (above : List Frame) (before ts after : List Tree) :
    (standing above before ts after).Pairwise Precedes := by
  induction ts generalizing before with
  | nil => exact List.Pairwise.nil
  | cons t ts ih =>
    rw [standing, List.pairwise_cons]
    refine ⟨fun c hc => ?_, ih _⟩
    obtain ⟨front, back, hsplit⟩ := List.append_of_mem hc
    obtain ⟨habove, hbefore, -⟩ := standing_eq_append_iff.mp ⟨front, back, hsplit, rfl, rfl⟩
    have hlt : before.length < c.before.length := by
      rw [hbefore, List.length_append, List.length_cons]
      omega
    apply precedes_of_lt hlt
    · rfl
    · unfold position
      rw [habove]

/-- The siblings before a place and the children of its node, in their places. -/
def ahead (c : Cursor) : List Cursor := standing c.above [] c.before.reverse (c.focus :: c.after)

def childPlaces (c : Cursor) : List Cursor :=
  standing (c.frame :: c.above) [] c.focus.children []

/-- The siblings before a place, from the nearest one back. -/
theorem ahead_eq_append_iff {x c : Cursor} {gap : List Tree} :
    (∃ front back, c.ahead.reverse = front ++ x :: back ∧ front.map focus = gap) ↔
      x.IsAhead c gap := by
  constructor
  · rintro ⟨front, back, hsplit, rfl⟩
    have hahead : c.ahead = back.reverse ++ x :: front.reverse := by
      rw [← List.reverse_reverse c.ahead, hsplit]
      simp
    obtain ⟨habove, hbefore, hts, hafter⟩ := standing_eq_append_iff.mp ⟨_, _, hahead, rfl, rfl⟩
    refine ⟨habove, ?_, ?_⟩
    · apply List.reverse_injective
      rw [hts, hbefore]
      simp
    · rw [hafter, List.map_reverse]
  · rintro ⟨habove, hbefore, hafter⟩
    have hts : c.before.reverse = x.before.reverse ++ x.focus :: gap.reverse := by
      rw [hbefore]
      simp
    obtain ⟨cs, ds, hsplit, -, hgap⟩ := standing_eq_append_iff.mpr
      ⟨habove, by rw [List.reverse_reverse, List.append_nil], hts, hafter⟩
    refine ⟨ds.reverse, cs.reverse, ?_, ?_⟩
    · rw [ahead, hsplit]
      simp
    · rw [List.map_reverse, hgap, List.reverse_reverse]

theorem parent?_of_childPlaces {x c : Cursor} {front back : List Cursor}
    (h : c.childPlaces = front ++ x :: back) :
    x.parent? = some c ∧ x.before = (front.map focus).reverse := by
  obtain ⟨habove, hbefore, hts, hafter⟩ := standing_eq_append_iff.mp ⟨front, back, h, rfl, rfl⟩
  rw [List.append_nil] at hbefore hafter
  rw [parent?_eq_some_iff, hbefore, List.reverse_reverse, hafter]
  exact ⟨⟨habove, hts⟩, rfl⟩

theorem childPlaces_of_parent? {x c : Cursor} (h : x.parent? = some c) :
    ∃ front back, c.childPlaces = front ++ x :: back := by
  obtain ⟨habove, hts⟩ := (parent?_eq_some_iff x c).mp h
  obtain ⟨cs, ds, hsplit, -⟩ := standing_eq_append_iff.mpr
    ⟨habove, by rw [List.reverse_reverse, List.append_nil], hts, by rw [List.append_nil]⟩
  exact ⟨cs, ds, hsplit⟩

end MarkupCatalog.Cursor

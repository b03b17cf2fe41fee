import MarkupCatalog.Declaration

/-!
# Source order

`Tree.places` lists the nodes of a tree in their places by recursion on the tree: a node comes
before its children, and a child before its later siblings.  The cursor's walk visits exactly these
places in this order.
-/

namespace MarkupCatalog

/-! ## 1. Moves of a cursor -/

namespace Cursor

theorem firstChild?_cases {c child : Cursor} (h : c.firstChild? = some child) :
    ∃ k l s t ts, c.focus = .node k l s (t :: ts) ∧
      child = ⟨t, [], ts, ⟨k, l, s, c.before, c.after⟩ :: c.above⟩ := by
  unfold firstChild? at h
  split at h
  next => exact absurd h (by simp)
  next k l s t ts hf => exact ⟨k, l, s, t, ts, hf, (Option.some.inj h).symm⟩

theorem nextSibling?_cases {c next : Cursor} (h : c.nextSibling? = some next) :
    ∃ t ts, c.after = t :: ts ∧ next = ⟨t, c.focus :: c.before, ts, c.above⟩ := by
  unfold nextSibling? at h
  split at h
  next => exact absurd h (by simp)
  next t ts ha => exact ⟨t, ts, ha, (Option.some.inj h).symm⟩

theorem parent?_firstChild {c child : Cursor} (h : c.firstChild? = some child) :
    child.parent? = some c := by
  obtain ⟨k, l, s, t, ts, hf, rfl⟩ := firstChild?_cases h
  obtain ⟨focus, before, after, above⟩ := c
  subst hf
  rfl

theorem parent?_nextSibling {c next : Cursor} (h : c.nextSibling? = some next) :
    next.parent? = c.parent? := by
  obtain ⟨t, ts, ha, rfl⟩ := nextSibling?_cases h
  unfold parent?
  cases c.above with
  | nil => rfl
  | cons f fs => simp only [ha, List.reverse_cons, List.append_assoc, List.singleton_append]

end Cursor

/-! ## 2. Places -/

mutual

/-- The places at and below a tree that stands between `before` (nearest first) and `after`. -/
def Tree.places (before after : List Tree) (above : List Frame) : Tree → List Cursor
  | .node k l s cs =>
    { focus := .node k l s cs, before, after, above } ::
      Tree.placesOf [] (⟨k, l, s, before, after⟩ :: above) cs

def Tree.placesOf (before : List Tree) (above : List Frame) : List Tree → List Cursor
  | [] => []
  | t :: ts => t.places before ts above ++ Tree.placesOf (t :: before) above ts

end

namespace Cursor

def places (c : Cursor) : List Cursor := c.focus.places c.before c.after c.above

/-- The places behind the cursor that lie below the node `depth` levels above it. -/
def following : Nat → Cursor → List Cursor
  | 0, _ => []
  | depth + 1, c =>
    Tree.placesOf (c.focus :: c.before) c.above c.after ++
      match c.parent? with
      | some up => following depth up
      | none => []

theorem places_of_leaf {c : Cursor} (h : c.firstChild? = none) : c.places = [c] := by
  obtain ⟨⟨k, l, s, cs⟩, before, after, above⟩ := c
  cases cs with
  | nil => rfl
  | cons t ts => simp [firstChild?] at h

theorem places_of_firstChild {c child : Cursor} (depth : Nat) (h : c.firstChild? = some child) :
    c.places ++ c.following depth = c :: (child.places ++ child.following (depth + 1)) := by
  rw [following, parent?_firstChild h]
  obtain ⟨k, l, s, t, ts, hf, rfl⟩ := firstChild?_cases h
  obtain ⟨focus, before, after, above⟩ := c
  subst hf
  simp only [places, Tree.places, Tree.placesOf, List.cons_append, List.append_assoc]

theorem following_of_nextSibling {c next : Cursor} (depth : Nat)
    (h : c.nextSibling? = some next) :
    c.following (depth + 1) = next.places ++ next.following (depth + 1) := by
  rw [following, following, parent?_nextSibling h, ← List.append_assoc]
  obtain ⟨t, ts, ha, rfl⟩ := nextSibling?_cases h
  rw [ha]
  rfl

theorem following_of_advance (depth : Nat) (c : Cursor) :
    c.following depth =
      match c.advance? depth with
      | some (level, next) => next.places ++ next.following level
      | none => [] := by
  induction depth generalizing c with
  | zero => rfl
  | succ depth ih =>
    rw [advance?]
    cases hn : c.nextSibling? with
    | some next => exact following_of_nextSibling depth hn
    | none =>
      -- behind the last sibling the walk goes on behind the parent
      have hlast : Tree.placesOf (c.focus :: c.before) c.above c.after = [] := by
        cases ha : c.after with
        | nil => rfl
        | cons t ts => simp [nextSibling?, ha] at hn
      rw [following, hlast, List.nil_append]
      cases c.parent? with
      | none => rfl
      | some up => exact ih up

theorem walkFrom_eq_places (depth : Nat) (c : Cursor) :
    c.walkFrom depth = c.places ++ c.following depth := by
  -- the recursion of the walk itself: down to the first child, or on to what follows
  induction depth, c using walkFrom.induct with
  | case1 depth c down on =>
    rw [walkFrom]
    split
    next child hc => rw [down child hc, places_of_firstChild depth hc]
    next hc =>
      rw [places_of_leaf hc, following_of_advance]
      split
      next level next hn => rw [on level next hn, hn]; rfl
      next hn => rw [hn]; rfl

theorem walk_eq_places (c : Cursor) : c.walk = c.places := by
  rw [walk, walkFrom_eq_places, following, List.append_nil]

end Cursor

theorem Tree.walk_eq_places (t : Tree) : t.walk = t.places [] [] [] :=
  (Cursor.ofRoot t).walk_eq_places

end MarkupCatalog

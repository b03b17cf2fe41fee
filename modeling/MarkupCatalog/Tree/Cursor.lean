import MarkupCatalog.Tree.Basic

/-!
# Cursors

A cursor stands on a node of a tree and knows the siblings on both sides and the nodes around it.
`Cursor.walk` moves a cursor over all nodes below a root in source order: to the first child where
there is one, else to the next sibling of the node or of the nearest node around it.
-/

namespace MarkupCatalog

/-! ## 1. Sizes -/

mutual

/-- The number of nodes of a tree. -/
def Tree.size : Tree → Nat
  | .node _ _ _ cs => 1 + Tree.sizes cs

def Tree.sizes : List Tree → Nat
  | [] => 0
  | t :: ts => t.size + Tree.sizes ts

end

theorem Tree.size_pos (t : Tree) : 0 < t.size := by
  cases t with
  | node k l s cs => rw [Tree.size]; omega

/-! ## 2. Cursors -/

/-- A node around the cursor, with the children before (nearest first) and after the one that
holds the cursor. -/
structure Frame where
  kind : Kind
  label : Option Label
  text : String
  before : List Tree
  after : List Tree

/-- A node in its place: its siblings before it (nearest first) and after it, and the nodes around
it, innermost first. `before` and `after` are those of the node itself. -/
structure Cursor where
  focus : Tree
  before : List Tree
  after : List Tree
  above : List Frame

namespace Cursor

/-- The cursor on the root of a tree. -/
def ofRoot (t : Tree) : Cursor := { focus := t, before := [], after := [], above := [] }

def firstChild? (c : Cursor) : Option Cursor :=
  match c.focus with
  | .node _ _ _ [] => none
  | .node k l s (t :: ts) =>
    some { focus := t, before := [], after := ts, above := ⟨k, l, s, c.before, c.after⟩ :: c.above }

def nextSibling? (c : Cursor) : Option Cursor :=
  match c.after with
  | [] => none
  | t :: ts => some { c with focus := t, before := c.focus :: c.before, after := ts }

def parent? (c : Cursor) : Option Cursor :=
  match c.above with
  | [] => none
  | f :: fs =>
    some
      { focus := .node f.kind f.label f.text (c.before.reverse ++ c.focus :: c.after)
        before := f.before
        after := f.after
        above := fs }

/-! ## 3. Walking -/

/-- The next sibling of the node or of the nearest of the `depth` nodes around it, and how deep it
lies. -/
def advance? : Nat → Cursor → Option (Nat × Cursor)
  | 0, _ => none
  | depth + 1, c =>
    match c.nextSibling? with
    | some next => some (depth + 1, next)
    | none =>
      match c.parent? with
      | some up => advance? depth up
      | none => none

/-- The number of nodes after the focus on the first `depth` levels. -/
def later : Nat → List Tree → List Frame → Nat
  | 0, _, _ => 0
  | _ + 1, after, [] => Tree.sizes after
  | depth + 1, after, f :: fs => Tree.sizes after + later depth f.after fs

/-- The number of nodes that a walk has still to visit. -/
def pending (depth : Nat) (c : Cursor) : Nat := c.focus.size + later depth c.after c.above

theorem pending_firstChild {c child : Cursor} (depth : Nat) (h : c.firstChild? = some child) :
    child.pending (depth + 1) < c.pending depth := by
  obtain ⟨⟨k, l, s, cs⟩, before, after, above⟩ := c
  cases cs with
  | nil => simp [firstChild?] at h
  | cons t ts =>
    simp only [firstChild?, Option.some.injEq] at h
    subst h
    simp only [pending, later, Tree.size, Tree.sizes]
    omega

theorem pending_advance {c next : Cursor} {depth level : Nat}
    (h : c.advance? depth = some (level, next)) :
    next.pending level ≤ later depth c.after c.above := by
  induction depth generalizing c with
  | zero => simp [advance?] at h
  | succ depth ih =>
    obtain ⟨focus, before, after, above⟩ := c
    cases after with
    | cons t ts =>
      simp only [advance?, nextSibling?, Option.some.injEq, Prod.mk.injEq] at h
      obtain ⟨rfl, rfl⟩ := h
      cases above with
      | nil => simp only [pending, later, Tree.sizes]; omega
      | cons f fs => simp only [pending, later, Tree.sizes]; omega
    | nil =>
      cases above with
      | nil => simp [advance?, nextSibling?, parent?] at h
      | cons f fs =>
        simp only [advance?, nextSibling?, parent?] at h
        have below := ih h
        simp only [later, Tree.sizes] at below ⊢
        omega

/-- The nodes from the cursor on, in source order, that lie at or below the node `depth` levels
above it. -/
def walkFrom (depth : Nat) (c : Cursor) : List Cursor :=
  c ::
    match hc : c.firstChild? with
    | some child => walkFrom (depth + 1) child
    | none =>
      match hn : c.advance? depth with
      | some (level, next) =>
        have : next.pending level < c.pending depth :=
          Nat.lt_of_le_of_lt (pending_advance hn) (Nat.lt_add_of_pos_left c.focus.size_pos)
        walkFrom level next
      | none => []
termination_by c.pending depth
decreasing_by
  · exact pending_firstChild depth hc
  · assumption

/-- All nodes at and below the cursor, in source order. -/
def walk (c : Cursor) : List Cursor := c.walkFrom 0

end Cursor

/-- All nodes of a tree in their places, in source order. -/
def Tree.walk (t : Tree) : List Cursor := (Cursor.ofRoot t).walk

end MarkupCatalog

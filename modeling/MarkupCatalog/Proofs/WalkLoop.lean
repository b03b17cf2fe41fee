import Mathlib.Logic.Function.Iterate
import MarkupCatalog.Proofs.Siblings

/-!
# The walk as a loop

The walk over a tree moves one cursor and counts how deep it is below the node that it started on.
Here this is a loop of single steps: visit the node and go down to its first child, or go on behind
the node, to its next sibling or up to its parent.  The main statement is that the loop ends, that
until then its count stays that of the levels below the first node, and that it has visited the
nodes at and below this one, each once and in source order, and no others.
-/

namespace MarkupCatalog

/-! ## 1. Nodes at and below a place -/

namespace Cursor

/-- The place of the node `levels` above. -/
def ancestor? : Nat → Cursor → Option Cursor
  | 0, c => some c
  | levels + 1, c => c.parent?.bind (ancestor? levels)

/-- The place is `r`, or it lies below `r`. -/
def IsWithin (c r : Cursor) : Prop := ∃ levels, c.ancestor? levels = some r

theorem ancestor?_firstChild {c child : Cursor} (h : c.firstChild? = some child) (levels : Nat) :
    child.ancestor? (levels + 1) = c.ancestor? levels := by
  rw [ancestor?, parent?_firstChild h, Option.bind_some]

theorem ancestor?_nextSibling {c next : Cursor} (h : c.nextSibling? = some next) (levels : Nat) :
    next.ancestor? (levels + 1) = c.ancestor? (levels + 1) := by
  rw [ancestor?, parent?_nextSibling h, ancestor?]

theorem ancestor?_parent {c up : Cursor} (h : c.parent? = some up) (levels : Nat) :
    c.ancestor? (levels + 1) = up.ancestor? levels := by
  rw [ancestor?, h, Option.bind_some]

theorem length_above_of_ancestor? {c r : Cursor} {levels : Nat} (h : c.ancestor? levels = some r) :
    c.above.length = r.above.length + levels := by
  induction levels generalizing c with
  | zero => rw [Option.some.inj h, Nat.add_zero]
  | succ levels ih =>
    obtain ⟨up, hup, hr⟩ := Option.bind_eq_some_iff.mp h
    rw [((parent?_eq_some_iff c up).mp hup).1, List.length_cons, ih hr, Nat.add_assoc]

theorem places_subset_of_parent? {c up : Cursor} (h : c.parent? = some up) :
    c.places ⊆ up.places := by
  obtain ⟨habove, hchildren⟩ := (parent?_eq_some_iff c up).mp h
  obtain ⟨⟨k, l, s, cs⟩, before, after, above⟩ := up
  intro p hp
  unfold places at hp ⊢
  rw [Tree.places, show cs = _ from hchildren]
  apply List.mem_cons_of_mem
  apply Tree.mem_placesOf
  rw [List.reverse_reverse, List.append_nil]
  rw [habove] at hp
  exact hp

theorem self_mem_places (c : Cursor) : c ∈ c.places := by
  obtain ⟨⟨k, l, s, cs⟩, before, after, above⟩ := c
  exact List.mem_cons_self

theorem IsWithin.mem_places {c r : Cursor} (h : c.IsWithin r) : c ∈ r.places := by
  obtain ⟨levels, h⟩ := h
  have hsubset : c.places ⊆ r.places := by
    induction levels generalizing c with
    | zero => rw [Option.some.inj h]; exact fun _ => id
    | succ levels ih =>
      obtain ⟨up, hup, hr⟩ := Option.bind_eq_some_iff.mp h
      exact fun _ hp => ih hr (places_subset_of_parent? hup hp)
  exact hsubset c.self_mem_places

theorem ancestor?_advance {depth level : Nat} {c next : Cursor}
    (h : c.advance? depth = some (level, next)) : next.ancestor? level = c.ancestor? depth := by
  induction depth generalizing c with
  | zero => cases h
  | succ depth ih =>
    rw [advance?] at h
    cases hnext : c.nextSibling? with
    | some sibling =>
      rw [hnext] at h
      cases h
      exact ancestor?_nextSibling hnext depth
    | none =>
      rw [hnext] at h
      cases hup : c.parent? with
      | none =>
        rw [hup] at h
        cases h
      | some up =>
        rw [hup] at h
        rw [ih h, ancestor?_parent hup]

theorem isWithin_of_mem_walkFrom {depth : Nat} {c r p : Cursor} (h : c.ancestor? depth = some r)
    (hp : p ∈ c.walkFrom depth) : p.IsWithin r := by
  induction depth, c using walkFrom.induct with
  | case1 depth c down on =>
    rw [walkFrom, List.mem_cons] at hp
    rcases hp with rfl | hp
    · exact ⟨depth, h⟩
    · split at hp
      next child hc => exact down child hc ((ancestor?_firstChild hc depth).trans h) hp
      next =>
        split at hp
        next level next hn => exact on level next hn ((ancestor?_advance hn).trans h) hp
        next => cases hp

theorem mem_walk_iff (c r : Cursor) : c ∈ r.walk ↔ c.IsWithin r := by
  constructor
  · exact isWithin_of_mem_walkFrom rfl
  · intro h
    rw [walk_eq_places]
    exact h.mem_places

theorem not_mem_walk_of_ancestor? {c r : Cursor} {levels : Nat}
    (h : r.ancestor? (levels + 1) = some c) : c ∉ r.walk := by
  rw [mem_walk_iff]
  rintro ⟨down, hdown⟩
  have hup := length_above_of_ancestor? h
  have hlength := length_above_of_ancestor? hdown
  omega

theorem not_mem_walk_of_sibling {c r : Cursor} (h : c.parent? = r.parent?) (hne : c ≠ r) :
    c ∉ r.walk := by
  rw [mem_walk_iff]
  rintro ⟨levels, hlevels⟩
  cases levels with
  | zero => exact hne (Option.some.inj hlevels)
  | succ levels =>
    -- what is above `c` is above `r` as well, so that `r` would be above itself
    have hself : r.ancestor? (levels + 1) = some r := by rwa [ancestor?, ← h]
    have hlength := length_above_of_ancestor? hself
    omega

end Cursor

/-! ## 2. The loop -/

/-- What the loop does next: visit the node, or go on behind it; or it has ended. -/
inductive WalkLoop.Stage where
  | visit
  | leave
  | done

/-- The loop between two steps; `state` is that of the visitor. -/
structure WalkLoop (σ : Type*) where
  stage : WalkLoop.Stage
  cursor : Cursor
  depth : Int
  state : σ

namespace WalkLoop

variable {σ : Type*} {visit : σ → Cursor → Kind → σ}

def start (r : Cursor) (state : σ) : WalkLoop σ :=
  { stage := .visit, cursor := r, depth := 0, state }

/-- One step. Whether there is a parent is not asked before going up. -/
def step (visit : σ → Cursor → Kind → σ) (l : WalkLoop σ) : WalkLoop σ :=
  match l.stage with
  | .visit =>
    let state := visit l.state l.cursor l.cursor.focus.kind
    match l.cursor.firstChild? with
    | some child => { stage := .visit, cursor := child, depth := l.depth + 1, state }
    | none => { l with stage := .leave, state }
  | .leave =>
    if l.depth = 0 then { l with stage := .done }
    else
      match l.cursor.nextSibling? with
      | some next => { l with stage := .visit, cursor := next }
      | none => { l with cursor := l.cursor.parent?.getD l.cursor, depth := l.depth - 1 }
  | .done => l

section Moves

variable {c next : Cursor} {state : σ}

theorem step_down (h : c.firstChild? = some next) (depth : Nat) :
    step visit ⟨.visit, c, depth, state⟩ =
      ⟨.visit, next, (depth + 1 : Nat), visit state c c.focus.kind⟩ := by
  simp only [step, h, Int.natCast_succ]

theorem step_leaf (h : c.firstChild? = none) (depth : Int) :
    step visit ⟨.visit, c, depth, state⟩ = ⟨.leave, c, depth, visit state c c.focus.kind⟩ := by
  simp only [step, h]

theorem step_end : step visit ⟨.leave, c, 0, state⟩ = ⟨.done, c, 0, state⟩ := rfl

theorem step_next (h : c.nextSibling? = some next) (depth : Nat) :
    step visit ⟨.leave, c, (depth + 1 : Nat), state⟩ =
      ⟨.visit, next, (depth + 1 : Nat), state⟩ := by
  have hdeep : ((depth + 1 : Nat) : Int) ≠ 0 := by omega
  simp only [step, if_neg hdeep, h]

theorem step_up (h : c.nextSibling? = none) (hup : c.parent? = some next) (depth : Nat) :
    step visit ⟨.leave, c, (depth + 1 : Nat), state⟩ = ⟨.leave, next, depth, state⟩ := by
  have hdeep : (depth : Int) + 1 ≠ 0 := by omega
  simp only [step, Int.natCast_succ, if_neg hdeep, h, hup, Option.getD_some, Int.add_sub_cancel]

end Moves

/-! ### What every step keeps -/

/-- The count is that of the levels from `r` down to the cursor. -/
def Counts (r : Cursor) (l : WalkLoop σ) : Prop :=
  ∃ levels : Nat, l.depth = levels ∧ l.cursor.ancestor? levels = some r

theorem Counts.depth_nonneg {r : Cursor} {l : WalkLoop σ} (h : l.Counts r) : 0 ≤ l.depth := by
  obtain ⟨levels, hdepth, -⟩ := h
  omega

theorem Counts.step {r : Cursor} {l : WalkLoop σ} (h : l.Counts r) : (step visit l).Counts r := by
  obtain ⟨levels, hdepth, hr⟩ := h
  obtain ⟨stage, c, depth, state⟩ := l
  obtain rfl : depth = levels := hdepth
  cases stage with
  | visit =>
    cases hdown : c.firstChild? with
    | some child =>
      rw [step_down hdown]
      exact ⟨levels + 1, rfl, (Cursor.ancestor?_firstChild hdown levels).trans hr⟩
    | none =>
      rw [step_leaf hdown]
      exact ⟨levels, rfl, hr⟩
  | leave =>
    cases levels with
    | zero => exact ⟨0, rfl, hr⟩
    | succ levels =>
      cases hnext : c.nextSibling? with
      | some next =>
        rw [step_next hnext]
        exact ⟨levels + 1, rfl, (Cursor.ancestor?_nextSibling hnext levels).trans hr⟩
      | none =>
        -- the root is above the cursor, so that there is a parent to go up to
        obtain ⟨up, hup, hr⟩ := Option.bind_eq_some_iff.mp hr
        rw [step_up hnext hup]
        exact ⟨levels, rfl, hr⟩
  | done => exact ⟨levels, rfl, hr⟩

theorem counts_start (r : Cursor) (state : σ) : (start r state).Counts r := ⟨0, rfl, rfl⟩

theorem counts_iterate {r : Cursor} {l : WalkLoop σ} (h : l.Counts r) (n : Nat) :
    ((step visit)^[n] l).Counts r := by
  induction n with
  | zero => exact h
  | succ n ih =>
    rw [Function.iterate_succ_apply']
    exact ih.step

/-! ### Where the steps lead -/

/-- The loop gets from `l` to `l'`. -/
def Reaches (visit : σ → Cursor → Kind → σ) (l l' : WalkLoop σ) : Prop :=
  ∃ n, (step visit)^[n] l = l'

theorem Reaches.refl (l : WalkLoop σ) : Reaches visit l l := ⟨0, rfl⟩

theorem Reaches.of_step {l next l' : WalkLoop σ} (hstep : step visit l = next)
    (h : Reaches visit next l') : Reaches visit l l' := by
  obtain ⟨n, h⟩ := h
  exact ⟨n + 1, by rw [Function.iterate_succ_apply, hstep, h]⟩

theorem Reaches.trans {l l' l'' : WalkLoop σ} (h : Reaches visit l l')
    (h' : Reaches visit l' l'') : Reaches visit l l'' := by
  obtain ⟨n, rfl⟩ := h
  obtain ⟨m, rfl⟩ := h'
  exact ⟨m + n, Function.iterate_add_apply _ m n l⟩

variable {r : Cursor}

/-- Behind a node the steps lead where `Cursor.advance?` does. -/
theorem reaches_advance {depth : Nat} {c : Cursor} (hr : c.ancestor? depth = some r)
    (state : σ) :
    Reaches visit ⟨.leave, c, depth, state⟩
      (match c.advance? depth with
      | some (level, next) => ⟨.visit, next, level, state⟩
      | none => ⟨.done, r, 0, state⟩) := by
  induction depth generalizing c with
  | zero =>
    obtain rfl := Option.some.inj hr
    exact .of_step step_end (.refl _)
  | succ depth ih =>
    rw [Cursor.advance?]
    cases hnext : c.nextSibling? with
    | some next => exact .of_step (step_next hnext depth) (.refl _)
    | none =>
      obtain ⟨up, hup, hr⟩ := Option.bind_eq_some_iff.mp hr
      rw [hup]
      exact .of_step (step_up hnext hup depth) (ih hr)

/-- From a node on, the steps visit the nodes of `Cursor.walkFrom`. -/
theorem reaches_walkFrom (depth : Nat) (c : Cursor) (hr : c.ancestor? depth = some r)
    (state : σ) :
    Reaches visit ⟨.visit, c, depth, state⟩
      ⟨.done, r, 0, (c.walkFrom depth).foldl (fun s p => visit s p p.focus.kind) state⟩ := by
  induction depth, c using Cursor.walkFrom.induct generalizing state with
  | case1 depth c down on =>
    rw [Cursor.walkFrom, List.foldl_cons]
    split
    next child hdown =>
      exact .of_step (step_down hdown depth)
        (down child hdown ((Cursor.ancestor?_firstChild hdown depth).trans hr) _)
    next hdown =>
      apply Reaches.of_step (step_leaf hdown depth)
      have hbehind : Reaches visit _ _ := reaches_advance hr (visit state c c.focus.kind)
      split
      next level next hn =>
        rw [hn] at hbehind
        exact hbehind.trans (on level next hn ((Cursor.ancestor?_advance hn).trans hr) _)
      next hn =>
        rw [hn] at hbehind
        exact hbehind

theorem iterate_add_of_done {l l' : WalkLoop σ} {n : Nat} (h : (step visit)^[n] l = l')
    (hdone : l'.stage = .done) (m : Nat) : (step visit)^[n + m] l = l' := by
  have hfixed : step visit l' = l' := by
    unfold step
    rw [hdone]
  rw [Nat.add_comm, Function.iterate_add_apply, h, Function.iterate_fixed hfixed]

/-- The loop ends where it started, with its count at zero, and has then visited the nodes of the
walk, which are those at and below the first one. Nodes above and beside this one are not
visited. -/
theorem visits_walk (visit : σ → Cursor → Kind → σ) (state : σ) (r : Cursor) :
    let after (n : Nat) := (step visit)^[n] (start r state)
    (∃ n, ∀ m, after (n + m) =
        ⟨.done, r, 0, r.walk.foldl (fun s c => visit s c c.focus.kind) state⟩) ∧
      (∀ n, 0 ≤ (after n).depth ∧ (after n).Counts r) ∧
      r.walk = r.places ∧
      r.walk.Nodup ∧
      (∀ c, c ∈ r.walk ↔ c.IsWithin r) ∧
      (∀ c levels, r.ancestor? (levels + 1) = some c → c ∉ r.walk) ∧
      ∀ c, c.parent? = r.parent? → c ≠ r → c ∉ r.walk := by
  intro after
  have hcounts (n : Nat) : (after n).Counts r := counts_iterate (counts_start r state) n
  obtain ⟨n, hn⟩ : Reaches visit _ _ := reaches_walkFrom 0 r rfl state
  exact ⟨⟨n, iterate_add_of_done hn rfl⟩, fun n => ⟨(hcounts n).depth_nonneg, hcounts n⟩,
    r.walk_eq_places, r.nodup_walk, fun c => c.mem_walk_iff r,
    fun c levels => Cursor.not_mem_walk_of_ancestor?, fun c => Cursor.not_mem_walk_of_sibling⟩

end WalkLoop
end MarkupCatalog

import Mathlib.Data.List.Lex
import MarkupCatalog.Proofs.Surroundings

/-!
# Positions

A place in a tree has a position: which child it is, and which child each node around it is.  Source
order is the lexicographic order of positions, in which the walk over a tree visits every place of
the tree once.
-/

namespace MarkupCatalog

/-! ## 1. Positions of places -/

/-- Which child each node around a place is, the outermost node first. -/
def Frame.positionOf (above : List Frame) : List Nat :=
  (above.map fun f => f.before.length).reverse

namespace Cursor

def position (c : Cursor) : List Nat := Frame.positionOf c.above ++ [c.before.length]

/-- The place comes before the other one in the source. -/
def Precedes (c d : Cursor) : Prop := c.position < d.position

theorem Precedes.trans {c d e : Cursor} (h : c.Precedes d) (h' : d.Precedes e) : c.Precedes e :=
  List.lt_trans h h'

theorem Precedes.irrefl (c : Cursor) : ¬ c.Precedes c := List.lt_irrefl c.position

/-- Two places are compared where their positions part. -/
theorem precedes_of_lt {c d : Cursor} {base s s' : List Nat} {i j : Nat} (hij : i < j)
    (hc : c.position = base ++ i :: s) (hd : d.position = base ++ j :: s') : c.Precedes d := by
  unfold Precedes
  rw [hc, hd]
  exact List.Lex.append_left _ (List.Lex.rel hij) base

/-- A node comes before all that is below it. -/
theorem precedes_of_below {c d : Cursor} {i : Nat} {s : List Nat}
    (hd : d.position = c.position ++ i :: s) : c.Precedes d := by
  unfold Precedes
  rw [hd]
  conv_lhs => rw [← List.append_nil c.position]
  exact List.Lex.append_left _ List.Lex.nil c.position

/-- What is found in a list that is in source order comes before all else that `p` accepts. -/
theorem least_of_find? {cs : List Cursor} (hcs : cs.Pairwise Precedes) {p : Cursor → Bool}
    {c b : Cursor} (h : cs.find? p = some c) (hb : b ∈ cs) (hp : p b = true) :
    b = c ∨ c.Precedes b := by
  obtain ⟨-, front, back, rfl, hfront⟩ := List.find?_eq_some_iff_append.mp h
  rcases List.mem_append.mp hb with hb | hb
  · have hnot := hfront b hb
    rw [hp] at hnot
    exact absurd hnot (by decide)
  · rcases List.mem_cons.mp hb with rfl | hb
    · exact .inl rfl
    · exact .inr ((List.pairwise_cons.mp (List.pairwise_append.mp hcs).2.1).1 b hb)

/-- A place that comes before all else that `p` accepts is found in a list in source order. -/
theorem find?_eq_some_of_least {cs : List Cursor} (hcs : cs.Pairwise Precedes)
    {p : Cursor → Bool} {c : Cursor} (hc : c ∈ cs) (hp : p c = true)
    (hleast : ∀ b ∈ cs, p b = true → b = c ∨ c.Precedes b) : cs.find? p = some c := by
  cases h : cs.find? p with
  | none => exact absurd hp (List.find?_eq_none.mp h c hc)
  | some b =>
    have hb := hleast b (List.mem_of_find?_eq_some h) (List.find?_some h)
    rcases hb with rfl | hlt
    · rfl
    · rcases least_of_find? hcs h hc hp with rfl | hgt
      · rfl
      · exact absurd (hlt.trans hgt) (Precedes.irrefl c)

end Cursor

/-! ## 2. The walk -/

theorem Frame.positionOf_cons (f : Frame) (fs : List Frame) :
    Frame.positionOf (f :: fs) = Frame.positionOf fs ++ [f.before.length] := by
  unfold Frame.positionOf
  rw [List.map_cons, List.reverse_cons]

mutual

/-- All places of a tree lie below that of its root. -/
theorem Tree.position_places (before after : List Tree) (above : List Frame) :
    ∀ t : Tree, ∀ c ∈ t.places before after above,
      ∃ s, c.position = Frame.positionOf above ++ before.length :: s
  | .node k l s cs, c, hc => by
    rw [Tree.places] at hc
    rcases List.mem_cons.mp hc with rfl | hc
    · exact ⟨[], rfl⟩
    · obtain ⟨i, s', -, hposition⟩ := Tree.position_placesOf [] (⟨k, l, s, before, after⟩ :: above)
        cs c hc
      refine ⟨i :: s', ?_⟩
      rw [hposition, Frame.positionOf_cons, List.append_assoc]
      rfl

theorem Tree.position_placesOf (before : List Tree) (above : List Frame) :
    ∀ ts : List Tree, ∀ c ∈ placesOf before above ts,
      ∃ i s, before.length ≤ i ∧ c.position = Frame.positionOf above ++ i :: s
  | [], _, hc => absurd hc List.not_mem_nil
  | t :: ts, c, hc => by
    rw [Tree.placesOf] at hc
    rcases List.mem_append.mp hc with hc | hc
    · obtain ⟨s, hposition⟩ := Tree.position_places before ts above t c hc
      exact ⟨before.length, s, Nat.le_refl _, hposition⟩
    · obtain ⟨i, s, hi, hposition⟩ := Tree.position_placesOf (t :: before) above ts c hc
      exact ⟨i, s, Nat.le_of_succ_le hi, hposition⟩

end

mutual

theorem Tree.pairwise_places (before after : List Tree) (above : List Frame) :
    ∀ t : Tree, (t.places before after above).Pairwise Cursor.Precedes
  | .node k l s cs => by
    rw [Tree.places, List.pairwise_cons]
    refine ⟨fun c hc => ?_, Tree.pairwise_placesOf [] (⟨k, l, s, before, after⟩ :: above) cs⟩
    obtain ⟨i, s', -, hposition⟩ := Tree.position_placesOf [] (⟨k, l, s, before, after⟩ :: above)
      cs c hc
    apply Cursor.precedes_of_below (i := i) (s := s')
    rw [hposition, Frame.positionOf_cons]
    rfl

theorem Tree.pairwise_placesOf (before : List Tree) (above : List Frame) :
    ∀ ts : List Tree, (placesOf before above ts).Pairwise Cursor.Precedes
  | [] => List.Pairwise.nil
  | t :: ts => by
    rw [Tree.placesOf, List.pairwise_append]
    refine ⟨Tree.pairwise_places before ts above t, Tree.pairwise_placesOf (t :: before) above ts,
      fun c hc d hd => ?_⟩
    obtain ⟨s, hc⟩ := Tree.position_places before ts above t c hc
    obtain ⟨i, s', hi, hd⟩ := Tree.position_placesOf (t :: before) above ts d hd
    exact Cursor.precedes_of_lt hi hc hd

end

/-- A walk visits the places at and below a node in source order. -/
theorem Cursor.pairwise_walk (c : Cursor) : c.walk.Pairwise Precedes := by
  rw [Cursor.walk_eq_places]
  exact Tree.pairwise_places c.before c.after c.above c.focus

theorem Cursor.nodup_walk (c : Cursor) : c.walk.Nodup := by
  apply c.pairwise_walk.imp
  intro p q h heq
  exact Precedes.irrefl q (heq ▸ h)

theorem Tree.pairwise_walk (t : Tree) : t.walk.Pairwise Cursor.Precedes :=
  (Cursor.ofRoot t).pairwise_walk

theorem Tree.nodup_walk (t : Tree) : t.walk.Nodup := (Cursor.ofRoot t).nodup_walk

/-! ## 3. Every place is visited -/

theorem Tree.mem_placesOf {c : Cursor} {t : Tree} {above : List Frame} (front back : List Tree)
    (before : List Tree) (h : c ∈ t.places (front.reverse ++ before) back above) :
    c ∈ placesOf before above (front ++ t :: back) := by
  induction front generalizing before with
  | nil =>
    rw [List.nil_append, Tree.placesOf]
    exact List.mem_append_left _ h
  | cons u front ih =>
    rw [List.cons_append, Tree.placesOf]
    apply List.mem_append_right
    apply ih
    rwa [List.reverse_cons, List.append_assoc] at h

theorem Tree.mem_places_rebuilt {c : Cursor} {before after : List Tree} (above : List Frame)
    {t : Tree} (hroot : Frame.Rooted before after above) (h : c ∈ t.places before after above) :
    c ∈ (rebuilt before after above t).places [] [] [] := by
  induction above generalizing before after t with
  | nil =>
    obtain ⟨rfl, rfl⟩ := hroot
    exact h
  | cons f fs ih =>
    apply ih hroot
    -- the children of the node around the place are its siblings with it
    unfold Frame.plug
    rw [Tree.places]
    apply List.mem_cons_of_mem
    apply Tree.mem_placesOf before.reverse after []
    rwa [List.reverse_reverse, List.append_nil]

theorem Cursor.mem_walk_top {c : Cursor} (h : c.Rooted) : c ∈ c.top.walk := by
  rw [Tree.walk_eq_places]
  apply Tree.mem_places_rebuilt c.above h
  obtain ⟨⟨k, l, s, cs⟩, before, after, above⟩ := c
  exact List.mem_cons_self

/-- The walk visits the cursors of a tree and no others. -/
theorem Tree.mem_walk_iff {c : Cursor} {t : Tree} : c ∈ t.walk ↔ c.top = t ∧ c.Rooted := by
  constructor
  · exact Cursor.top_of_mem_walk
  · rintro ⟨rfl, h⟩
    exact Cursor.mem_walk_top h

end MarkupCatalog

import Mathlib.Data.List.DropRight
import MarkupCatalog.Proofs.Sites

/-!
# Class bodies

A member of a class holds the decorators and comments that stand right before it in the class body.
Every other node parts them from the members behind it, so that no member holds what stands before
another one.
-/

namespace MarkupCatalog

/-- The named nodes in the body of a class. -/
def Declaration.bodyNodes (d : Declaration) : List Tree :=
  ((d.node.child? .body).map Tree.namedChildren).getD []

namespace Member

/-- The member holds the decorators and comments of the run, and the run has no other nodes. -/
structure Holds (m : Member) (run : List Tree) : Prop where
  unbroken : ∀ t ∈ run, t.kind = .decorator ∨ t.kind = .comment
  decoratorNodes : m.decoratorNodes = run.filter fun t => t.kind == .decorator
  comments : m.comments = run.filter Tree.isComment

/-- What stands behind these nodes holds none of them. -/
def IsParted (front : List Tree) : Prop :=
  ∀ t ∈ front.getLast?, t.kind ≠ .decorator ∧ t.kind ≠ .comment

/-! ## 1. One node after the other -/

variable (ds cs : List Tree)

theorem collect_named (ts : List Tree) :
    collect ds cs (ts.filter Tree.isNamed) = collect ds cs ts := by
  induction ts generalizing ds cs with
  | nil => rfl
  | cons t ts ih =>
    by_cases hnamed : t.isNamed = true
    · rw [List.filter_cons_of_pos hnamed, collect, collect]
      simp only [ih]
    · have htoken : t.kind = .token := Decidable.not_not.mp (mt (Tree.isNamed_iff t).mpr hnamed)
      rw [List.filter_cons_of_neg hnamed, collect_token _ _ _ htoken, ih]

theorem map_node_collect (ts : List Tree) :
    (collect ds cs ts).map node = ts.filter fun t => t.kind.isMember := by
  induction ts generalizing ds cs with
  | nil => rfl
  | cons t ts ih =>
    by_cases hmember : t.kind.isMember = true
    · rw [collect_member _ _ _ hmember, List.map_cons, ih,
        List.filter_cons_of_pos (p := fun t : Tree => t.kind.isMember) hmember]
    · rw [List.filter_cons_of_neg (p := fun t : Tree => t.kind.isMember) hmember, collect,
        if_neg hmember]
      simp only [ih, ite_self, apply_ite (List.map node)]

/-- Decorators and comments are put to those that have been seen. -/
theorem collect_run {run : List Tree} (h : ∀ t ∈ run, t.kind = .decorator ∨ t.kind = .comment)
    (ts : List Tree) :
    collect ds cs (run ++ ts) =
      collect (ds ++ run.filter fun t => t.kind == .decorator) (cs ++ run.filter Tree.isComment)
        ts := by
  induction run generalizing ds cs with
  | nil => simp
  | cons t run ih =>
    obtain ⟨ht, hrun⟩ := List.forall_mem_cons.mp h
    rw [List.cons_append]
    rcases ht with ht | ht
    · rw [collect_decorator _ _ _ ht, ih _ _ hrun]
      simp [ht, Tree.isComment]
    · rw [collect_comment _ _ _ ht, ih _ _ hrun]
      simp [ht, Tree.isComment]

/-- Behind a node that is neither a decorator nor a comment, nothing of what stands before it
counts. -/
theorem collect_parted {front : List Tree} (hne : front ≠ [])
    (h : ∀ t ∈ front.getLast?, ¬ t.kind.leads = true) (ts : List Tree) :
    collect ds cs (front ++ ts) = collect ds cs front ++ collect [] [] ts := by
  induction front generalizing ds cs with
  | nil => exact absurd rfl hne
  | cons t front ih =>
    rw [List.cons_append]
    cases front with
    | nil =>
      have ht : ¬ t.kind.leads = true := h t rfl
      by_cases hmember : t.kind.isMember = true
      · rw [collect_member _ _ _ hmember, collect_member _ _ _ hmember]
        rfl
      · rw [collect_other _ _ _ ht hmember, collect_other _ _ _ ht hmember]
        rfl
    | cons u front =>
      have hlast : ∀ v ∈ (u :: front).getLast?, ¬ v.kind.leads = true := by
        rwa [List.getLast?_cons_cons] at h
      have hrest := fun ds cs => ih ds cs (List.cons_ne_nil u front) hlast
      by_cases hmember : t.kind.isMember = true
      · rw [collect_member _ _ _ hmember, collect_member _ _ _ hmember, hrest]
        rfl
      · rw [collect, collect, if_neg hmember, if_neg hmember]
        simp only [hrest]
        split_ifs <;> rfl

/-! ## 2. What a member holds -/

theorem decorator_or_comment {t : Tree} (hnamed : t.isNamed = true)
    (hleads : t.kind.leads = true) : t.kind = .decorator ∨ t.kind = .comment := by
  rcases Kind.leads_cases hleads with hk | hk | hk
  · exact .inr hk
  · exact .inl hk
  · exact absurd hk ((Tree.isNamed_iff t).mp hnamed)

/-- In front of any place there are a run of decorators and comments and the nodes before it. -/
theorem exists_run {ts : List Tree} (hnamed : ∀ t ∈ ts, t.isNamed = true) :
    ∃ front run, ts = front ++ run ∧ (∀ t ∈ run, t.kind = .decorator ∨ t.kind = .comment) ∧
      ∀ t ∈ front.getLast?, ¬ t.kind.leads = true := by
  refine ⟨ts.rdropWhile fun t => t.kind.leads, ts.rtakeWhile fun t => t.kind.leads,
    List.rdropWhile_append_rtakeWhile.symm, ?_, ?_⟩
  · intro t ht
    have hmem := (List.rtakeWhile_suffix _ ts).subset ht
    exact decorator_or_comment (hnamed t hmem)
      (List.mem_rtakeWhile_imp (p := fun t : Tree => t.kind.leads) ht)
  · intro t ht
    obtain ⟨hne, rfl⟩ := List.mem_getLast?_eq_getLast ht
    exact List.rdropWhile_last_not _ _ hne

/-- A member holds the run before it, and the nodes on its two sides give the other members. -/
theorem collect_place {front run : List Tree} {t : Tree}
    (hrun : ∀ u ∈ run, u.kind = .decorator ∨ u.kind = .comment)
    (hfront : ∀ u ∈ front.getLast?, ¬ u.kind.leads = true) (ht : t.kind.isMember = true)
    (back : List Tree) :
    collect [] [] (front ++ (run ++ t :: back)) =
      collect [] [] front ++
        ⟨t, run.filter fun u => u.kind == .decorator, run.filter Tree.isComment⟩ ::
          collect [] [] back := by
  have hhere := collect_run [] [] hrun (t :: back)
  rw [List.nil_append, List.nil_append, collect_member _ _ _ ht] at hhere
  by_cases hne : front = []
  · rw [hne]
    exact hhere
  · rw [collect_parted [] [] hne hfront, hhere]

/-- The place of an element that a filter keeps, from its place among those that are kept. -/
theorem exists_place {α : Type} {p : α → Bool} {ts us vs : List α} {t : α}
    (h : ts.filter p = us ++ t :: vs) :
    ∃ ahead back, ts = ahead ++ t :: back ∧ p t = true ∧ ahead.filter p = us ∧
      back.filter p = vs := by
  obtain ⟨ahead, rest, rfl, hahead, hrest⟩ := List.filter_eq_append_iff.mp h
  obtain ⟨gap, back, rfl, hgap, ht, hback⟩ := List.filter_eq_cons_iff.mp hrest
  refine ⟨ahead ++ gap, back, (List.append_assoc _ _ _).symm, ht, ?_, hback⟩
  rw [List.filter_append, hahead, List.filter_eq_nil_iff.mpr hgap, List.append_nil]

/-- A member stands behind a run that it holds and other nodes that part the run from those before
it. -/
theorem holds_of_collect {ts : List Tree} (hnamed : ∀ t ∈ ts, t.isNamed = true)
    {before after : List Member} {m : Member} (h : collect [] [] ts = before ++ m :: after) :
    ∃ front run back, ts = front ++ (run ++ m.node :: back) ∧ IsParted front ∧ m.Holds run ∧
      before.map node = front.filter (fun t => t.kind.isMember) ∧
      after.map node = back.filter fun t => t.kind.isMember := by
  -- the nodes of the members tell where the member stands
  have hnodes := map_node_collect [] [] ts
  rw [h, List.map_append, List.map_cons] at hnodes
  obtain ⟨ahead, back, rfl, hmember, hahead, hback⟩ := exists_place hnodes.symm
  obtain ⟨front, run, rfl, hrun, hfront⟩ :=
    exists_run fun t ht => hnamed t (List.mem_append_left _ ht)
  have hbefore : before.map node = front.filter fun t => t.kind.isMember := by
    have hnone : run.filter (fun t => t.kind.isMember) = [] := by
      refine List.filter_eq_nil_iff.mpr fun t ht => ?_
      rcases hrun t ht with hk | hk <;> rw [hk] <;> decide
    rw [← hahead, List.filter_append, hnone, List.append_nil]
  rw [List.append_assoc, collect_place hrun hfront hmember] at h
  have hlength : (collect [] [] front).length = before.length := by
    rw [← List.length_map node, map_node_collect, ← hbefore, List.length_map]
  obtain ⟨hm, -⟩ := List.cons.inj (List.append_inj h hlength).2
  refine ⟨front, run, back, List.append_assoc _ _ _, ?parted, ?holds, hbefore, hback.symm⟩
  case parted =>
    intro t ht
    have hleads := hfront t ht
    constructor <;> intro hk <;> rw [hk] at hleads <;> exact hleads rfl
  case holds =>
    rw [← hm]
    exact ⟨hrun, rfl, rfl⟩

/-! ## 3. Nothing is held twice -/

/-- The runs that the members hold lie one behind the other among the nodes that have been seen
since the last member and those that follow. -/
theorem exists_runs (run : List Tree) (hrun : ∀ t ∈ run, t.kind = .decorator ∨ t.kind = .comment)
    (ts : List Tree) :
    ∃ runs, List.Forall₂ Holds
        (collect (run.filter fun t => t.kind == .decorator) (run.filter Tree.isComment) ts) runs ∧
      runs.flatten.Sublist (run ++ ts) := by
  induction ts generalizing run with
  | nil => exact ⟨[], .nil, List.nil_sublist _⟩
  | cons t ts ih =>
    by_cases hleads : t.kind.leads = true
    · -- the run goes on, and punctuation does not count
      by_cases hnamed : t.isNamed = true
      · have ht : ∀ u ∈ [t], u.kind = .decorator ∨ u.kind = .comment :=
          List.forall_mem_singleton.mpr (decorator_or_comment hnamed hleads)
        obtain ⟨runs, hruns, hsub⟩ := ih (run ++ [t]) (List.forall_mem_append.mpr ⟨hrun, ht⟩)
        rw [List.filter_append, List.filter_append, ← collect_run _ _ ht] at hruns
        rw [List.append_assoc] at hsub
        exact ⟨runs, hruns, hsub⟩
      · obtain ⟨runs, hruns, hsub⟩ := ih run hrun
        have htoken : t.kind = .token :=
          Decidable.not_not.mp (mt (Tree.isNamed_iff t).mpr hnamed)
        rw [collect_token _ _ _ htoken]
        exact ⟨runs, hruns,
          hsub.trans ((List.Sublist.refl run).append (List.sublist_cons_self t ts))⟩
    · -- the run ends: a member holds it, and anything else drops it
      obtain ⟨runs, hruns, hsub⟩ := ih [] nofun
      have hbehind : runs.flatten.Sublist (t :: ts) := hsub.trans (List.sublist_cons_self t ts)
      by_cases hmember : t.kind.isMember = true
      · rw [collect_member _ _ _ hmember]
        refine ⟨run :: runs, .cons ⟨hrun, rfl, rfl⟩ hruns, ?_⟩
        rw [List.flatten_cons]
        exact (List.Sublist.refl run).append hbehind
      · rw [collect_other _ _ _ hleads hmember]
        exact ⟨runs, hruns, hbehind.trans (List.sublist_append_right run _)⟩

end Member

namespace Declaration

theorem members_eq_collect (d : Declaration) : d.members = Member.collect [] [] d.bodyNodes := by
  unfold members bodyNodes
  cases d.node.child? .body with
  | none => rfl
  | some body => exact (Member.collect_named [] [] body.children).symm

theorem isNamed_of_mem_bodyNodes {d : Declaration} {t : Tree} (h : t ∈ d.bodyNodes) :
    t.isNamed = true := by
  unfold bodyNodes at h
  cases hbody : d.node.child? .body with
  | none =>
    rw [hbody] at h
    cases h
  | some body =>
    rw [hbody] at h
    exact (List.mem_filter.mp h).2

/-- A class has one member for each field and method in its body, in their order.  It holds the
decorators and comments that stand between its node and the last node before it that is neither, and
no decorator or comment is held by two members. -/
theorem members_hold (d : Declaration) :
    d.members.map Member.node = d.bodyNodes.filter (fun t => t.kind.isMember) ∧
      (∀ before m after, d.members = before ++ m :: after →
        ∃ front run back, d.bodyNodes = front ++ (run ++ m.node :: back) ∧ Member.IsParted front ∧
          m.Holds run ∧ before.map Member.node = front.filter (fun t => t.kind.isMember) ∧
          after.map Member.node = back.filter fun t => t.kind.isMember) ∧
      ∃ runs, List.Forall₂ Member.Holds d.members runs ∧ runs.flatten.Sublist d.bodyNodes := by
  rw [members_eq_collect]
  exact ⟨Member.map_node_collect [] [] d.bodyNodes,
    fun _ _ _ h => Member.holds_of_collect (fun _ ht => isNamed_of_mem_bodyNodes ht) h,
    Member.exists_runs [] nofun d.bodyNodes⟩

/-- What stands before a static block belongs to no member behind it. -/
example :
    let ts : List Tree :=
      [.leaf .comment "/** A. */", .leaf .decorator "@Input()", .leaf .statement "static \x7b\x7d",
        .leaf .comment "/** B. */", .leaf .fieldDefinition "b"]
    Member.collect [] [] ts =
      [⟨.leaf .fieldDefinition "b", [], [.leaf .comment "/** B. */"]⟩] := rfl

end Declaration
end MarkupCatalog

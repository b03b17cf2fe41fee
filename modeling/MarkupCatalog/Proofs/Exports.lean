import Mathlib.Data.List.TakeWhile
import MarkupCatalog.Proofs.Thinning

/-!
# Exported classes

An export changes nothing about the class in it.  The decorators and comments that a class begins
with may stay on the class or stand in the export before it: the class has the same decorators, the
same documentation and the same entries as it has without the export.
-/

namespace MarkupCatalog

/-! ## 1. Comments and decorators at the front -/

namespace Tree

theorem leads_of_kind {k : Kind} (h : k = .comment ∨ k = .decorator) : k.leads = true := by
  rcases h with rfl | rfl <;> rfl

theorem leading_append_of_leads {lead : List Tree} (ts : List Tree)
    (h : ∀ t ∈ lead, t.kind = .comment ∨ t.kind = .decorator) :
    leading (lead ++ ts) = lead.filter isComment ++ leading ts := by
  induction lead with
  | nil => rfl
  | cons t lead ih =>
    have hlead := ih fun u hu => h u (List.mem_cons_of_mem t hu)
    rw [List.cons_append, leading_cons, if_pos (leads_of_kind (h t List.mem_cons_self)), hlead,
      List.filter_cons]
    split <;> rfl

theorem leading_append_filter_isNamed (front ts : List Tree) :
    leading (front ++ ts) = leading (front.filter isNamed ++ ts) := by
  unfold leading
  simp only [List.filter_append, List.filter_filter, Bool.and_self]

theorem filter_decorator_filter_isNamed (ts : List Tree) :
    (ts.filter isNamed).filter (fun t => t.kind == .decorator) =
      ts.filter fun t => t.kind == .decorator := by
  rw [List.filter_filter]
  refine List.filter_congr fun t _ => ?_
  obtain ⟨k, l, s, cs⟩ := t
  cases k <;> rfl

/-- Comments that have been heard once may come again. -/
theorem firstHeard_again (heard : String → Bool) {again cs : List Tree} (ds : List Tree)
    (h : again ⊆ cs) : firstHeard heard (cs ++ (again ++ ds)) = firstHeard heard (cs ++ ds) := by
  rw [firstHeard_append, firstHeard_append, firstHeard_append heard cs ds]
  cases hcs : firstHeard heard cs with
  | some s => rfl
  | none =>
    have hagain : firstHeard heard again = none := by
      unfold firstHeard at hcs ⊢
      rw [List.find?_eq_none] at hcs ⊢
      intro s hs
      exact hcs s (List.map_subset text h hs)
    rw [hagain, Option.none_or]

end Tree

/-! ## 2. The same class twice -/

/-- What two classes have in common if the one is read as the other. -/
structure Declaration.ReadsAs (d e : Declaration) : Prop where
  decorators : d.decorators = e.decorators
  doc : d.doc? = e.doc?
  extract : ∀ f, d.extract f = e.extract f

theorem Declaration.ReadsAs.of_members {d e : Declaration}
    (hdecorators : d.decorators = e.decorators) (hdoc : d.doc? = e.doc?)
    (hmembers : d.members = e.members) : d.ReadsAs e := by
  refine ⟨hdecorators, hdoc, fun f => ?_⟩
  unfold Declaration.extract Declaration.selector? Declaration.element?
  rw [hdecorators, hdoc, hmembers]

/-! ## 3. Exports -/

/-- The node `t` in place of the focus, in an export that has `front` before the node and `back`
behind it. -/
def Cursor.exported (c : Cursor) (label : Option Label) (text : String) (front back : List Tree)
    (t : Tree) : Cursor :=
  { focus := t
    before := front.reverse
    after := back
    above := ⟨.exportStatement, label, text, c.before, c.after⟩ :: c.above }

/-- At the cursor stands a class without an export.  Its children are `lead`, comments and
decorators of which none is its body, and `rest`. -/
structure Cursor.BeginsWith (c : Cursor) (k : Kind) (lead rest : List Tree) : Prop where
  focus : ∃ l s, c.focus = .node k l s (lead ++ rest)
  isClass : k.isClass = true
  alone : (Declaration.mk c).export? = none
  leads : ∀ t ∈ lead, t.kind = .comment ∨ t.kind = .decorator
  noBody : ∀ t ∈ lead, t.label ≠ some .body

/-- An export has the nodes `lead` and keywords before its class, and no decorators behind it. -/
structure Tree.LeadsIn (lead front back : List Tree) : Prop where
  front : front.filter isNamed = lead
  back : ∀ t ∈ back, t.kind ≠ .decorator

namespace Declaration

variable {c : Cursor} {k : Kind} {lead rest front back : List Tree}

theorem export?_exported (c : Cursor) (label : Option Label) (text : String)
    (front back : List Tree) (t : Tree) : (mk (c.exported label text front back t)).export? =
      some { c with focus := .node .exportStatement label text (front ++ t :: back) } := by
  unfold export? Cursor.exported Cursor.parent?
  rw [List.reverse_reverse]
  rfl

theorem decoratorNodes_exported (hc : c.BeginsWith k lead rest) (he : Tree.LeadsIn lead front back)
    (le l : Option Label) (se s : String) :
    (mk (c.exported le se front back (.node k l s rest))).decoratorNodes =
      (mk c).decoratorNodes := by
  obtain ⟨l₀, s₀, hfocus⟩ := hc.focus
  have hclass : ¬ ((Tree.node k l s rest).kind == .decorator) = true := by
    intro h
    have hk := hc.isClass
    rw [show k = .decorator from beq_iff_eq.mp h] at hk
    exact absurd hk (by decide)
  have hback : back.filter (fun t => t.kind == .decorator) = [] :=
    List.filter_eq_nil_iff.mpr fun t ht => mt beq_iff_eq.mp (he.back t ht)
  have hfront : front.filter (fun t => t.kind == .decorator) =
      lead.filter fun t => t.kind == .decorator := by
    rw [← Tree.filter_decorator_filter_isNamed, he.front]
  unfold decoratorNodes
  rw [export?_exported, hc.alone]
  show (front ++ .node k l s rest :: back).filter _ ++ rest.filter _ = c.focus.children.filter _
  rw [hfocus, List.filter_append, List.filter_cons, if_neg hclass, hback, List.append_nil, hfront]
  exact (List.filter_append _ _).symm

theorem doc?_exported (hc : c.BeginsWith k lead rest) (he : Tree.LeadsIn lead front back)
    (le l : Option Label) (se s : String) :
    (mk (c.exported le se front back (.node k l s rest))).doc? = (mk c).doc? := by
  obtain ⟨l₀, s₀, hfocus⟩ := hc.focus
  -- the export hears the comments that have moved, and the class hears the last of them again
  have hexport : (Tree.node .exportStatement le se
      (front ++ .node k l s rest :: back)).leadingComments = lead.filter Tree.isComment := by
    have hclass : ¬ (Tree.node k l s rest).kind.leads = true := by
      intro h
      have hk := hc.isClass
      rcases Kind.leads_cases h with h | h | h <;> rw [show k = _ from h] at hk <;>
        exact absurd hk (by decide)
    rw [Tree.leadingComments_eq, Tree.children_node, Tree.leading_append_filter_isNamed, he.front,
      Tree.leading_append_of_leads _ hc.leads, Tree.leading_cons, if_neg hclass, List.append_nil]
  have hagain : (Tree.commentRun front.reverse).reverse ⊆ lead.filter Tree.isComment := by
    intro t ht
    unfold Tree.commentRun at ht
    rw [List.filter_reverse, he.front, List.mem_reverse] at ht
    have hlead := (List.takeWhile_sublist _).subset ht
    exact List.mem_filter.mpr ⟨List.mem_reverse.mp hlead, List.mem_takeWhile_imp ht⟩
  have halone : (mk c).comments = (Tree.commentRun c.before).reverse ++
      (lead.filter Tree.isComment ++ Tree.leading rest) := by
    unfold comments commentsAt
    rw [hc.alone, hfocus, Tree.leadingComments_eq, Tree.children_node,
      Tree.leading_append_of_leads _ hc.leads]
    rfl
  have hexported : (mk (c.exported le se front back (.node k l s rest))).comments =
      (Tree.commentRun c.before).reverse ++ lead.filter Tree.isComment ++
        ((Tree.commentRun front.reverse).reverse ++ Tree.leading rest) := by
    unfold comments
    rw [export?_exported]
    dsimp only [commentsAt]
    rw [hexport]
    rfl
  show (Tree.firstHeard Doc.isDocComment _).map Doc.parse =
    (Tree.firstHeard Doc.isDocComment _).map Doc.parse
  rw [hexported, halone, Tree.firstHeard_again, List.append_assoc]
  exact List.Subset.trans hagain (List.subset_append_right _ _)

theorem members_exported (hc : c.BeginsWith k lead rest) (le l : Option Label) (se s : String) :
    (mk (c.exported le se front back (.node k l s rest))).members = (mk c).members := by
  obtain ⟨l₀, s₀, hfocus⟩ := hc.focus
  have hbody : c.focus.child? .body = (Tree.node k l s rest).child? .body := by
    have hlead : lead.find? (fun t => t.label == some .body) = none :=
      List.find?_eq_none.mpr fun t ht => mt beq_iff_eq.mp (hc.noBody t ht)
    rw [hfocus, Tree.child?, Tree.children_node, List.find?_append, hlead, Option.none_or]
    rfl
  unfold members node
  rw [hbody]
  rfl

theorem readsAs_exported_of_leadsIn (hc : c.BeginsWith k lead rest)
    (he : Tree.LeadsIn lead front back) (le l : Option Label) (se s : String) :
    (mk (c.exported le se front back (.node k l s rest))).ReadsAs (mk c) := by
  refine .of_members ?_ (doc?_exported hc he le l se s) (members_exported hc le l se s)
  unfold decorators
  rw [decoratorNodes_exported hc he]

/-- A class reads the same with an export around it, where it keeps its decorators and comments or
where they have moved to the export. -/
theorem readsAs_exported (hc : c.BeginsWith k lead rest) (le l : Option Label) (se s : String) :
    (∀ front back, Tree.LeadsIn [] front back →
      (mk (c.exported le se front back (.node k l s (lead ++ rest)))).ReadsAs (mk c)) ∧
    ∀ front back, Tree.LeadsIn lead front back →
      (mk (c.exported le se front back (.node k l s rest))).ReadsAs (mk c) := by
  have hnothing : c.BeginsWith k [] (lead ++ rest) :=
    { focus := hc.focus
      isClass := hc.isClass
      alone := hc.alone
      leads := nofun
      noBody := nofun }
  exact ⟨fun _ _ he => readsAs_exported_of_leadsIn hnothing he le l se s,
    fun _ _ he => readsAs_exported_of_leadsIn hc he le l se s⟩

theorem readsAs_exported_directive :
    let lead := (Tree.directive "app-a").children ++ [Tree.leaf .comment "/** B. */"]
    let rest := [Tree.leaf .token "class"]
    let c : Cursor :=
      { focus := .node .classDeclaration none "" (lead ++ rest)
        before := [.leaf .comment "/** A. */"]
        after := []
        above := [⟨.program, none, "", [], []⟩] }
    c.BeginsWith .classDeclaration lead rest ∧
    Tree.LeadsIn [] [.leaf .token "export"] [] ∧
    Tree.LeadsIn lead (lead ++ [.leaf .token "export"]) [] ∧
    (mk (c.exported none "" [.leaf .token "export"] []
      (.node .classDeclaration none "" (lead ++ rest)))).ReadsAs (mk c) ∧
    (mk (c.exported none "" (lead ++ [.leaf .token "export"]) []
      (.node .classDeclaration none "" rest))).ReadsAs (mk c) := by
  intro lead rest c
  have hc : c.BeginsWith .classDeclaration lead rest :=
    { focus := ⟨none, "", rfl⟩
      isClass := rfl
      alone := rfl
      leads := by decide
      noBody := by decide }
  have hkept : Tree.LeadsIn [] [.leaf .token "export"] [] := ⟨rfl, nofun⟩
  have hmoved : Tree.LeadsIn lead (lead ++ [.leaf .token "export"]) [] := ⟨rfl, nofun⟩
  obtain ⟨kept, moved⟩ := readsAs_exported hc none none "" ""
  exact ⟨hc, hkept, hmoved, kept _ _ hkept, moved _ _ hmoved⟩

end Declaration
end MarkupCatalog

import Mathlib.Logic.Relation
import MarkupCatalog.Proofs.ThinnedReadings

/-!
# Insertion of inert nodes

Comments that are no documentation, and decorators without a role, do not change what a tree
defines, however many of them come or go.  The tree without such a node is the other one thinned.
Only where a decorator parts a class or an export from the documentation right before it may the
description be another one.
-/

namespace MarkupCatalog

namespace Tree

/-! ## 1. Inert nodes -/

/-- A comment that documents nothing. -/
structure IsPlainComment (t : Tree) : Prop where
  kind : t.kind = .comment
  label : t.label = none
  text : Doc.isDocComment t.text = false
  declarations : t.declarations = []

/-- A decorator that has no role, because its name is unknown or not a plain one. -/
structure IsUnrecognised (t : Tree) : Prop where
  kind : t.kind = .decorator
  label : t.label = none
  role : ∀ d, Decorator.ofTree? t = some d → d.role = none
  declarations : t.declarations = []

/-- The second tree has one inert node more: a plain comment at any place, or an unrecognised
decorator at any place among the decorators of a node where it does not part an export or a class
from a documentation comment right before it.  The text that a node spans may become another one,
unless it is read. -/
inductive Inserts : Tree → Tree → Prop
  | here {k : Kind} {l : Option Label} {s s' : String} {before after : List Tree} {w : Tree}
      (hw : w.IsPlainComment ∨
        w.IsUnrecognised ∧
          (Place.behindAll k l before).takesDecorator Doc.isDocComment after = true)
      (htext : (node k l s (before ++ after)).isVerbatim = true → s' = s) :
      Inserts (node k l s (before ++ after)) (node k l s' (before ++ w :: after))
  | inside {k : Kind} {l : Option Label} {s s' : String} {before after : List Tree} {t t' : Tree}
      (h : Inserts t t')
      (htext : (node k l s (before ++ t :: after)).isVerbatim = true → s' = s) :
      Inserts (node k l s (before ++ t :: after)) (node k l s' (before ++ t' :: after))

theorem IsPlainComment.isSilent {t : Tree} (h : t.IsPlainComment) : t.IsSilent Doc.isDocComment :=
  ⟨h.label, (hasClass_eq_false_iff t).mpr h.declarations, .inl ⟨h.kind, h.text⟩⟩

theorem IsUnrecognised.isSilent {t : Tree} (h : t.IsUnrecognised) :
    t.IsSilent Doc.isDocComment := by
  have hsign : t.sign? = none := by
    unfold sign?
    cases hd : Decorator.ofTree? t with
    | none => rfl
    | some d => rw [Option.bind_some, Decorator.sign?, h.role d hd, Option.map_none]
  exact ⟨h.label, (hasClass_eq_false_iff t).mpr h.declarations, .inr ⟨h.kind, hsign⟩⟩

/-! ## 2. The tree without them -/

variable {heard : String → Bool}

mutual

theorem Thinned.refl : ∀ t : Tree, Thinned heard t t
  | .node _ _ _ cs => .node (fun _ => rfl) (ThinnedAmong.refl _ cs)

theorem ThinnedAmong.refl (p : Place) : ∀ ts : List Tree, ThinnedAmong heard (Thinned heard) p ts ts
  | [] => .nil
  | t :: ts => .keep (Thinned.refl t) (ThinnedAmong.refl _ ts)

end

theorem Place.behind_behindAll (k : Kind) (l : Option Label) (before : List Tree) (t : Tree) :
    (behindAll k l before).behind t = behindAll k l (before ++ [t]) := by
  unfold behindAll behind
  rw [List.all_append, List.reverse_append, List.reverse_singleton, List.singleton_append,
    commentRun_cons, List.all_cons, List.all_nil, Bool.and_true]

theorem ThinnedAmong.of_append {k : Kind} {l : Option Label} {ts us : List Tree}
    (front before : List Tree)
    (h : ThinnedAmong heard (Thinned heard) (.behindAll k l (front ++ before)) ts us) :
    ThinnedAmong heard (Thinned heard) (.behindAll k l front) (before ++ ts) (before ++ us) := by
  induction before generalizing front with
  | nil => rwa [List.append_nil] at h
  | cons b before ih =>
    refine .keep (Thinned.refl b) ?_
    rw [Place.behind_behindAll]
    exact ih _ (by rwa [List.append_assoc])

/-- The new node is what the second tree has more. -/
theorem Inserts.thinned {t u : Tree} (h : Inserts t u) : Thinned Doc.isDocComment u t := by
  have verbatim {k l s s'} {ts us : List Tree}
      (hsub : (us.any fun c => c.kind == .templateSubstitution) =
        ts.any fun c => c.kind == .templateSubstitution)
      (htext : (node k l s ts).isVerbatim = true → s' = s)
      (hread : (node k l s' us).isVerbatim = true) : s = s' := by
    rw [isVerbatim_congr k l l s' s hsub] at hread
    exact (htext hread).symm
  induction h with
  | @here k l s s' before after w hw htext =>
    have hsilent : w.IsSilent Doc.isDocComment := by
      rcases hw with hplain | ⟨hunrecognised, -⟩
      · exact hplain.isSilent
      · exact hunrecognised.isSilent
    have hplace (hk : w.kind = .decorator) :
        (Place.behindAll k l before).takesDecorator Doc.isDocComment after = true := by
      rcases hw with hplain | ⟨-, htakes⟩
      · rw [hplain.kind] at hk
        cases hk
      · exact htakes
    refine .node (verbatim ?_ htext) (.of_append [] before (.drop hsilent hplace (.refl _ after)))
    rw [List.any_append, List.any_append, List.any_cons]
    obtain ⟨hk, -⟩ | ⟨hk, -⟩ := hsilent.kind <;> rw [hk] <;> rfl
  | @inside k l s s' before after t t' _ htext ih =>
    refine .node (verbatim ?_ htext) (.of_append [] before (.keep ih (.refl _ after)))
    rw [List.any_append, List.any_append, List.any_cons, List.any_cons, ih.kind_eq]

/-! ## 3. What a tree defines -/

/-- Trees that differ by inert nodes define the same. -/
theorem extract_eq_of_inserts (f : Formatter) {t u : Tree} (h : Relation.EqvGen Inserts t u) :
    t.extract f = u.extract f := by
  have hreadings : t.readings Doc.isDocComment = u.readings Doc.isDocComment := by
    induction h with
    | rel t u h => exact h.thinned.readings_eq
    | refl t => rfl
    | symm t u _ ih => exact ih.symm
    | trans t u v _ _ ih₁ ih₂ => exact ih₁.trans ih₂
  rw [extract_eq_readings, extract_eq_readings, hreadings]

theorem isUnrecognised_other (s : String) :
    (node .decorator none s [leaf .identifier "Other"]).IsUnrecognised := by
  refine ⟨rfl, rfl, fun d hd => ?_, (hasClass_eq_false_iff _).mp rfl⟩
  obtain rfl := Option.some.inj hd
  decide

theorem extract_eq_of_inserts_directive :
    Relation.EqvGen Inserts
      (node .classDeclaration none "class" (leaf .comment "// A." :: (directive "app-a").children))
      (node .classDeclaration none "@Other class"
        (node .decorator none "" [leaf .identifier "Other"] :: (directive "app-a").children)) ∧
    (node .classDeclaration none "class"
        (leaf .comment "// A." :: (directive "app-a").children)).extract
        (.ofDetail .simple .simple) =
      (node .classDeclaration none "@Other class"
        (node .decorator none "" [leaf .identifier "Other"] ::
          (directive "app-a").children)).extract (.ofDetail .simple .simple) := by
  have hcomment : (leaf .comment "// A.").IsPlainComment :=
    ⟨rfl, rfl, by decide, (hasClass_eq_false_iff _).mp rfl⟩
  have h : Relation.EqvGen Inserts
      (node .classDeclaration none "class" (leaf .comment "// A." :: (directive "app-a").children))
      (node .classDeclaration none "@Other class"
        (node .decorator none "" [leaf .identifier "Other"] :: (directive "app-a").children)) := by
    -- over the class without either: the comment goes, then the decorator comes
    refine .trans _ (node .classDeclaration none "" ([] ++ (directive "app-a").children)) _ ?_ ?_
    · exact .symm _ _ (.rel _ _ (.here (.inl hcomment) nofun))
    · exact .rel _ _ (.here (.inr ⟨isUnrecognised_other _, rfl⟩) nofun)
  exact ⟨h, extract_eq_of_inserts _ h⟩

/-- An exported class behind a piece that could not be read, with `inserted` between the
documentation and `export`. -/
def exportBehindError (inserted : List Tree) : Tree :=
  node .exportStatement none ""
    ((directive "x").children ++ [leaf .error ")", leaf .comment "/** doc */"] ++ inserted ++
      [leaf .token "export", node .classDeclaration none "class X {}"
        [leaf .token "class", node .typeIdentifier (some .name) "X" [],
          node .classBody (some .body) "{}" []]])

/-- A decorator that parts a class from its documentation takes the description away. -/
theorem extract_exportBehindError_ne :
    (node .decorator none "@Other" [leaf .identifier "Other"]).IsUnrecognised ∧
    (exportBehindError [node .decorator none "@Other" [leaf .identifier "Other"]]).extract
        (.ofDetail .simple .simple) ≠
      (exportBehindError []).extract (.ofDetail .simple .simple) := by
  refine ⟨isUnrecognised_other _, ?_⟩
  rw [extract_eq_readings, extract_eq_readings]
  decide

end Tree
end MarkupCatalog

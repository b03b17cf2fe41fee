import MarkupCatalog.Proofs.Sites

/-!
# Mirrors

What is read of a node: the values of strings, the keys of properties, the names of members and the
signs of decorators.  A relation between trees is a mirror if it keeps what these readers look at.
The readers then see the same in related trees.
-/

namespace MarkupCatalog

/-- The parts that are looked up in a node, its body apart. -/
def Kind.asks (k : Kind) : Label → Bool
  | .key | .value => k == .pair
  | .name => k.isMember
  | .function | .arguments => k == .callExpression
  | .body => false

namespace Tree

/-- Whether the text of a node is read: in comments, names and numbers, in the parts of strings, and
in templates without substitutions. -/
def isVerbatim (t : Tree) : Bool :=
  match t.kind with
  | .comment | .identifier | .propertyIdentifier | .privateIdentifier | .shorthandProperty
  | .stringFragment | .escapeSequence | .number => true
  | .templateString => !t.children.any fun c => c.kind == .templateSubstitution
  | _ => false

theorem isVerbatim_congr (k : Kind) (l l' : Option Label) (s s' : String) {ts us : List Tree}
    (h : (ts.any fun c => c.kind == .templateSubstitution) =
      us.any fun c => c.kind == .templateSubstitution) :
    (node k l s ts).isVerbatim = (node k l' s' us).isVerbatim := by
  unfold isVerbatim
  simp only [kind_node, children_node, h]

/-- Related trees agree in what is read of a node.  Among the children there may be comments and
decorators that are not related to any. -/
structure Mirror (R : Tree → Tree → Prop) : Prop where
  kind {t u : Tree} : R t u → u.kind = t.kind
  text {t u : Tree} : R t u → t.isVerbatim = true → u.text = t.text
  child {t u : Tree} {l : Label} : R t u → t.kind.asks l = true →
    Option.Rel R (t.child? l) (u.child? l)
  content {t u : Tree} : R t u → t.kind = .decorator ∨ t.label = some .arguments →
    Option.Rel R (Decorator.content? t) (Decorator.content? u)
  children {t u : Tree} : R t u → t.kind = .string ∨ t.kind = .templateString ∨ t.kind = .object →
    ∀ {α : Type} (g : Tree → List α), (∀ c d, R c d → g d = g c) →
      (∀ c, c.kind = .comment ∨ c.kind = .decorator → g c = []) →
      u.children.flatMap g = t.children.flatMap g

theorem label_of_child? {l : Label} {t c : Tree} (h : t.child? l = some c) : c.label = some l := by
  have hlabel := List.find?_some h
  exact beq_iff_eq.mp hlabel

namespace Mirror

variable {R : Tree → Tree → Prop} {t u : Tree}

/-! ## 1. Strings and keys -/

theorem stringPart (M : Mirror R) (h : R t u) : u.stringPart = t.stringPart := by
  unfold Tree.stringPart
  rw [M.kind h]
  split
  next hk => rw [M.text h (by rw [isVerbatim, hk])]
  next hk => rw [M.text h (by rw [isVerbatim, hk])]
  next => rfl

theorem any_templateSubstitution (M : Mirror R) (h : R t u) (hk : t.kind = .templateString) :
    (u.children.any fun c => c.kind == .templateSubstitution) =
      t.children.any fun c => c.kind == .templateSubstitution := by
  let found (c : Tree) : List Kind := if c.kind = .templateSubstitution then [c.kind] else []
  have hfound (cs : List Tree) :
      (cs.any fun c => c.kind == .templateSubstitution) = !(cs.flatMap found).isEmpty := by
    induction cs with
    | nil => rfl
    | cons c cs ih =>
      rw [List.any_cons, List.flatMap_cons, ih]
      by_cases hc : c.kind = .templateSubstitution
      · rw [beq_iff_eq.mpr hc, show found c = [c.kind] from if_pos hc]
        rfl
      · rw [beq_eq_false_iff_ne.mpr hc, show found c = [] from if_neg hc]
        rfl
  rw [hfound, hfound, M.children h (.inr (.inl hk))]
  · intro c d hcd
    show (if d.kind = _ then [d.kind] else []) = if c.kind = _ then [c.kind] else []
    rw [M.kind hcd]
  · intro c hc
    show (if c.kind = _ then [c.kind] else []) = []
    rcases hc with hc | hc <;> rw [hc] <;> rfl

theorem stringValue? (M : Mirror R) (h : R t u) : u.stringValue? = t.stringValue? := by
  unfold Tree.stringValue?
  rw [M.kind h]
  split
  next hk =>
    rw [M.children h (.inl hk) Tree.stringPart fun c d hcd => M.stringPart hcd]
    intro c hc
    unfold Tree.stringPart
    rcases hc with hc | hc <;> rw [hc]
  next hk =>
    rw [M.any_templateSubstitution h hk]
    by_cases hsub : (t.children.any fun c => c.kind == .templateSubstitution) = true
    · rw [if_pos hsub, if_pos hsub]
    · have hread : t.isVerbatim = true := by
        unfold isVerbatim
        rw [hk]
        exact (Bool.not_eq_true' _).mpr ((Bool.not_eq_true _).mp hsub)
      rw [if_neg hsub, if_neg hsub, M.text h hread]
  next => rfl

theorem key? (M : Mirror R) (h : R t u) : Literal.key? u = Literal.key? t := by
  unfold Literal.key?
  rw [M.kind h, M.stringValue? h]
  split
  next hk => rw [M.text h (by rw [isVerbatim, hk])]
  next hk => rw [M.text h (by rw [isVerbatim, hk])]
  next => rfl
  next => rfl

theorem keyText? (M : Mirror R) (h : R t u) : Literal.keyText? u = Literal.keyText? t := by
  unfold Literal.keyText?
  rw [M.kind h]
  split
  next hk =>
    have hkey := M.child (l := .key) h (by rw [hk]; rfl)
    have hvalue := M.child (l := .value) h (by rw [hk]; rfl)
    generalize t.child? .key = key, u.child? .key = key' at hkey ⊢
    generalize t.child? .value = value, u.child? .value = value' at hvalue ⊢
    cases hkey with
    | none => rfl
    | some hkey =>
      cases hvalue with
      | none => rfl
      | some hvalue => simp only [M.key? hkey, M.stringValue? hvalue]
  next hk => rw [M.text h (by rw [isVerbatim, hk])]
  next hk =>
    have hname := M.child (l := .name) h (by rw [hk]; rfl)
    generalize t.child? .name = name, u.child? .name = name' at hname ⊢
    cases hname with
    | none => rfl
    | some hname => simp only [Option.bind_some, M.key? hname]
  next => rfl

theorem name (M : Mirror R) (h : Option.Rel R (t.child? .name) (u.child? .name))
    (ds ds' cs cs' : List Tree) : (Member.mk u ds' cs').name = (Member.mk t ds cs).name := by
  unfold Member.name
  dsimp only
  generalize t.child? .name = name, u.child? .name = name' at h ⊢
  cases h with
  | none => rfl
  | some hname =>
    dsimp only
    rw [M.kind hname, M.stringValue? hname]
    split
    next hk => rw [M.text hname (by rw [isVerbatim, hk])]
    next hk => rw [M.text hname (by rw [isVerbatim, hk])]
    next => rfl

/-! ## 2. Decorators -/

theorem lookupString_entries (M : Mirror R) (h : R t u) (hk : t.kind = .object) (key : String) :
    Literal.lookupString (Literal.entries u.children) key =
      Literal.lookupString (Literal.entries t.children) key := by
  rw [Literal.lookupString_entries, Literal.lookupString_entries,
    List.filterMap_eq_flatMap_toList, List.filterMap_eq_flatMap_toList,
    M.children h (.inr (.inr hk))]
  · intro c d hcd
    rw [M.keyText? hcd]
  · intro c hc
    unfold Literal.keyText?
    rcases hc with hc | hc <;> rw [hc] <;> rfl

theorem lookupString_configuration (M : Mirror R) {d e : Decorator}
    (h : Option.Rel R d.arguments e.arguments)
    (hlabel : ∀ a, d.arguments = some a → a.label = some .arguments) (key : String) :
    Literal.lookupString e.configuration key = Literal.lookupString d.configuration key := by
  unfold Decorator.configuration Decorator.argument?
  generalize d.arguments = a, e.arguments = b at h hlabel ⊢
  cases h with
  | none => rfl
  | @some a b hab =>
    have hcontent := M.content hab (.inr (hlabel a rfl))
    rw [Option.bind_some, Option.bind_some]
    generalize Decorator.content? a = o, Decorator.content? b = o' at hcontent ⊢
    cases hcontent with
    | none => rfl
    | @some o o' ho =>
      dsimp only
      rw [M.kind ho]
      by_cases hk : o.kind = .object
      · rw [if_pos hk, if_pos hk, M.lookupString_entries ho hk]
      · rw [if_neg hk, if_neg hk]

theorem sign?_ofCallee (M : Mirror R) {f g : Tree} {as bs : Option Tree} (h : R f g)
    (harguments : Option.Rel R as bs) (hlabel : ∀ a, as = some a → a.label = some .arguments) :
    (Decorator.ofCallee g bs).sign? = (Decorator.ofCallee f as).sign? := by
  have hrole : (Decorator.ofCallee g bs).role = (Decorator.ofCallee f as).role := by
    show (if g.kind = .identifier then _ else _) = if f.kind = .identifier then _ else _
    rw [M.kind h]
    by_cases hk : f.kind = .identifier
    · rw [if_pos hk, if_pos hk, M.text h (by rw [isVerbatim, hk])]
    · rw [if_neg hk, if_neg hk]
  unfold Decorator.sign?
  rw [hrole,
    M.lookupString_configuration (d := .ofCallee f as) (e := .ofCallee g bs) harguments hlabel]

theorem sign? (M : Mirror R) (h : R t u) (hk : t.kind = .decorator) : u.sign? = t.sign? := by
  have hcontent := M.content h (.inl hk)
  unfold Tree.sign? Decorator.ofTree?
  generalize Decorator.content? t = e, Decorator.content? u = e' at hcontent ⊢
  cases hcontent with
  | none => rfl
  | @some e e' he =>
    dsimp only
    rw [M.kind he]
    by_cases hcall : e.kind = .callExpression
    · have hfunction := M.child (l := .function) he (by rw [hcall]; rfl)
      have harguments := M.child (l := .arguments) he (by rw [hcall]; rfl)
      have hlabel : ∀ a, e.child? .arguments = some a → a.label = some .arguments :=
        fun a ha => label_of_child? ha
      rw [if_pos hcall, if_pos hcall]
      generalize e.child? .function = f, e'.child? .function = f' at hfunction ⊢
      cases hfunction with
      | none => rfl
      | some hf => exact M.sign?_ofCallee hf harguments hlabel
    · rw [if_neg hcall, if_neg hcall]
      exact M.sign?_ofCallee he .none nofun

end Mirror
end Tree
end MarkupCatalog

import MarkupCatalog.Proofs.Mirrors

/-!
# Thinned trees

What the extraction passes over may be missing: comments that are not heard, decorators without a
role, and source texts that nothing reads.  `Thinned heard t u` says that `u` is `t` without some of
these.  A decorator may only be missing among the decorators of a class, an export, a class body or
a member, and not where it parts a class or an export from a comment that is heard.  What is read
off a node is the same in both trees: strings, keys, the signs of decorators and the members of a
class.
-/

namespace MarkupCatalog

/-! ## 1. What may be missing -/

/-- The kinds of node among whose children decorators are looked for. -/
def Kind.isDecorated (k : Kind) : Bool :=
  k.isClass || k.isMember || k == .exportStatement || k == .classBody

namespace Tree

mutual

def hasClass : Tree → Bool
  | .node k _ _ cs => k.isClass || anyClass cs

def anyClass : List Tree → Bool
  | [] => false
  | t :: ts => t.hasClass || anyClass ts

end

/-- The kind of what stands behind the comments that `ts` begins with. -/
def behindComments? (ts : List Tree) : Option Kind :=
  (ts.map kind).find? fun k => k != .comment && k != .token

/-- A place among the children of a node. -/
structure Place where
  /-- The kind of the node. -/
  kind : Kind
  /-- The part that the node plays. -/
  label : Option Label
  /-- Whether only comments, decorators and punctuation come before. -/
  atFront : Bool
  /-- The comments right before the place (nearest first). -/
  run : List Tree

namespace Place

/-- The place behind the children `before` of a node. -/
def behindAll (k : Kind) (l : Option Label) (before : List Tree) : Place :=
  ⟨k, l, before.all fun t => t.kind.leads, commentRun before.reverse⟩

/-- The place behind `t`, if `t` stands at the place `p`. -/
def behind (p : Place) (t : Tree) : Place :=
  { p with atFront := p.atFront && t.kind.leads, run := t.extendRun p.run }

/-- Whether decorators are looked for among these children.  In the part `arguments` it is the first
argument that is looked for. -/
def holdsDecorators (p : Place) : Bool := p.kind.isDecorated && p.label != some .arguments

/-- Whether the comments right before the place document an export or a class among the children
`ts` that follow, because they stand there.  The class of an export that only comments and
decorators come before hears these wherever they stand. -/
def documentsNext (p : Place) (ts : List Tree) : Bool :=
  (behindComments? ts).any fun k =>
    k == .exportStatement || k.isClass && !(p.kind == .exportStatement && p.atFront)

/-- Whether a decorator may come or go at the place, in front of `ts`: decorators are looked for
there, and it does not part an export or a class from a comment that is heard. -/
def takesDecorator (heard : String → Bool) (p : Place) (ts : List Tree) : Bool :=
  p.holdsDecorators && !(p.documentsNext ts && p.run.any fun c => heard c.text)

end Place

/-- A comment that is not heard, or a decorator without a role. -/
structure IsSilent (heard : String → Bool) (t : Tree) : Prop where
  label : t.label = none
  classless : t.hasClass = false
  kind : t.kind = .comment ∧ heard t.text = false ∨ t.kind = .decorator ∧ t.sign? = none

/-- The second list is the first one without some of what is passed over.  The place is where the
second list starts. -/
inductive ThinnedAmong (heard : String → Bool) (R : Tree → Tree → Prop) :
    Place → List Tree → List Tree → Prop
  | nil {p : Place} : ThinnedAmong heard R p [] []
  | keep {p : Place} {ts us : List Tree} {t u : Tree} (ht : R t u)
      (hts : ThinnedAmong heard R (p.behind u) ts us) : ThinnedAmong heard R p (t :: ts) (u :: us)
  | drop {p : Place} {ts us : List Tree} {t : Tree} (ht : t.IsSilent heard)
      (hplace : t.kind = .decorator → p.takesDecorator heard ts = true)
      (hts : ThinnedAmong heard R p ts us) : ThinnedAmong heard R p (t :: ts) us

/-- The second tree is the first one without some of what is passed over. -/
inductive Thinned (heard : String → Bool) : Tree → Tree → Prop
  | node {k : Kind} {l : Option Label} {s s' : String} {ts us : List Tree}
      (htext : (node k l s ts).isVerbatim = true → s' = s)
      (hts : ThinnedAmong heard (Thinned heard) (.behindAll k l []) ts us) :
      Thinned heard (node k l s ts) (node k l s' us)

variable {heard : String → Bool}

theorem IsSilent.leads {t : Tree} (h : t.IsSilent heard) : t.kind.leads = true := by
  obtain ⟨hk, -⟩ | ⟨hk, -⟩ := h.kind <;> rw [hk] <;> rfl

namespace Thinned

variable {t u : Tree}

theorem kind_eq (h : Thinned heard t u) : u.kind = t.kind := by
  cases h; rfl

theorem label_eq (h : Thinned heard t u) : u.label = t.label := by
  cases h; rfl

theorem text_eq (h : Thinned heard t u) (hread : t.isVerbatim = true) : u.text = t.text := by
  cases h with
  | node htext _ => exact htext hread

theorem children (h : Thinned heard t u) :
    ThinnedAmong heard (Thinned heard) (.behindAll t.kind t.label []) t.children u.children := by
  cases h with
  | node _ hts => exact hts

theorem isNamed_eq (h : Thinned heard t u) : u.isNamed = t.isNamed := by
  rw [isNamed, h.kind_eq, isNamed]

theorem isComment_eq (h : Thinned heard t u) : u.isComment = t.isComment := by
  rw [isComment, h.kind_eq, isComment]

theorem text_eq_of_comment (h : Thinned heard t u) (hk : t.kind = .comment) : u.text = t.text :=
  h.text_eq (by rw [isVerbatim, hk])

end Thinned

/-! ## 2. Children -/

/-- What may be missing among children, where there may be `decorators` or none. -/
structure IsMissing (heard : String → Bool) (decorators : Bool) (t : Tree) : Prop
    extends t.IsSilent heard where
  place : t.kind = .decorator → decorators = true

theorem IsMissing.kind_eq {decorators : Bool} {t : Tree} (h : IsMissing heard decorators t) :
    t.kind = .comment ∨ t.kind = .decorator :=
  h.kind.imp And.left And.left

theorem isMissing_of_place {p : Place} {ts : List Tree} {t : Tree} (ht : t.IsSilent heard)
    (hplace : t.kind = .decorator → p.takesDecorator heard ts = true) :
    IsMissing heard p.holdsDecorators t :=
  { ht with place := fun hk => (Bool.and_eq_true _ _ ▸ hplace hk).1 }

namespace ThinnedAmong

variable {R : Tree → Tree → Prop} {p : Place} {ts us : List Tree}

theorem find? {f : Tree → Bool} (h : ThinnedAmong heard R p ts us)
    (hkeep : ∀ t u, R t u → f u = f t)
    (hdrop : ∀ t, IsMissing heard p.holdsDecorators t → f t = false) :
    Option.Rel R (ts.find? f) (us.find? f) := by
  induction h with
  | nil => exact .none
  | @keep _ _ _ t u ht _ ih =>
    rw [List.find?_cons, List.find?_cons, hkeep t u ht]
    cases f t with
    | true => exact .some ht
    | false => exact ih hdrop
  | drop ht hplace _ ih =>
    rw [List.find?_cons_of_neg]
    · exact ih hdrop
    · rw [hdrop _ (isMissing_of_place ht hplace)]
      exact Bool.false_ne_true

theorem flatMap {α : Type} {g : Tree → List α} (h : ThinnedAmong heard R p ts us)
    (hkeep : ∀ t u, R t u → g u = g t)
    (hdrop : ∀ t, IsMissing heard p.holdsDecorators t → g t = []) :
    us.flatMap g = ts.flatMap g := by
  induction h with
  | nil => rfl
  | @keep _ _ _ t u ht _ ih => rw [List.flatMap_cons, List.flatMap_cons, hkeep t u ht, ih hdrop]
  | drop ht hplace _ ih =>
    rw [List.flatMap_cons, hdrop _ (isMissing_of_place ht hplace), List.nil_append, ih hdrop]

end ThinnedAmong

/-! ## 3. What is read of a node -/

theorem Thinned.child? {t u : Tree} (h : Thinned heard t u) (l : Label) :
    Option.Rel (Thinned heard) (t.child? l) (u.child? l) := by
  refine h.children.find? (fun c d hcd => by rw [hcd.label_eq]) fun c hc => ?_
  rw [hc.label]
  rfl

theorem Thinned.content? {t u : Tree} (h : Thinned heard t u)
    (hplace : (Place.behindAll t.kind t.label []).holdsDecorators = false) :
    Option.Rel (Thinned heard) (Decorator.content? t) (Decorator.content? u) := by
  refine h.children.find? (fun c d hcd => by rw [hcd.isNamed_eq, hcd.isComment_eq]) fun c hc => ?_
  -- only comments are missing, and the content is no comment
  rcases hc.kind_eq with hcomment | hdecorator
  · rw [(isComment_iff c).mpr hcomment, Bool.not_true, Bool.and_false]
  · rw [hc.place hdecorator] at hplace
    exact absurd hplace.symm Bool.false_ne_true

theorem mirror_thinned (heard : String → Bool) : Mirror (Thinned heard) := by
  constructor
  case kind => exact Thinned.kind_eq
  case text => exact Thinned.text_eq
  case child => exact fun {_ _ l} h _ => h.child? l
  case content =>
    -- neither in a decorator nor among arguments are decorators looked for
    intro t u h hplace
    refine h.content? ?_
    rcases hplace with hk | hl
    · rw [hk]
      rfl
    · exact Bool.and_eq_false_imp.mpr fun _ => bne_eq_false_iff_eq.mpr hl
  case children =>
    intro t u h _ α g hkeep hdrop
    exact h.children.flatMap hkeep fun c hc => hdrop c hc.kind_eq

theorem Thinned.sign?_eq {t u : Tree} (h : Thinned heard t u) (hk : t.kind = .decorator) :
    u.sign? = t.sign? :=
  (mirror_thinned heard).sign? h hk

theorem Thinned.signs_eq {t u : Tree} (h : Thinned heard t u) :
    u.decorators.filterMap sign? = t.decorators.filterMap sign? := by
  unfold decorators
  rw [List.filterMap_filter, List.filterMap_filter, List.filterMap_eq_flatMap_toList,
    List.filterMap_eq_flatMap_toList]
  apply h.children.flatMap
  · intro c d hcd
    rw [hcd.kind_eq]
    by_cases hk : c.kind = .decorator
    · rw [hcd.sign?_eq hk]
    · rw [if_neg (by rwa [beq_iff_eq]), if_neg (by rwa [beq_iff_eq])]
  · intro c hc
    obtain ⟨hk, -⟩ | ⟨-, hsign⟩ := hc.kind
    · rw [hk]
      rfl
    · rw [hsign, ite_self]
      rfl

/-! ## 4. Comments -/

def leading (ts : List Tree) : List Tree :=
  ((ts.filter isNamed).takeWhile fun c => c.kind == .comment || c.kind == .decorator).filter
    isComment

theorem leadingComments_eq (t : Tree) : t.leadingComments = leading t.children := rfl

theorem leading_cons (t : Tree) (ts : List Tree) :
    leading (t :: ts) =
      if t.kind.leads then if t.isComment then t :: leading ts else leading ts else [] := by
  obtain ⟨k, l, s, cs⟩ := t
  cases k <;> rfl

theorem firstHeard_cons (heard : String → Bool) (t : Tree) (cs : List Tree) :
    firstHeard heard (t :: cs) = if heard t.text then some t.text else firstHeard heard cs := by
  unfold firstHeard
  rw [List.map_cons, List.find?_cons]
  cases heard t.text <;> rfl

theorem firstHeard_eq_none {cs : List Tree} (h : (cs.any fun c => heard c.text) = false) :
    firstHeard heard cs.reverse = none := by
  rw [firstHeard, List.find?_eq_none]
  intro s hs
  obtain ⟨c, hc, rfl⟩ := List.mem_map.mp hs
  exact List.any_eq_false.mp h c (List.mem_reverse.mp hc)

theorem firstHeard_append_unheard {t : Tree} (cs : List Tree) (h : heard t.text = false) :
    firstHeard heard (cs ++ [t]) = firstHeard heard cs := by
  rw [firstHeard_append, firstHeard_cons, h]
  exact Option.or_none

theorem firstHeard_append_comment {t u : Tree} {cs cs' : List Tree} (ht : Thinned heard t u)
    (hk : t.kind = .comment) (h : firstHeard heard cs' = firstHeard heard cs) :
    firstHeard heard (cs' ++ [u]) = firstHeard heard (cs ++ [t]) := by
  rw [firstHeard_append, firstHeard_append, h, firstHeard_cons, firstHeard_cons,
    ht.text_eq_of_comment hk]

theorem ThinnedAmong.firstHeard_leading {p : Place} {ts us : List Tree}
    (h : ThinnedAmong heard (Thinned heard) p ts us) :
    firstHeard heard (leading us) = firstHeard heard (leading ts) := by
  induction h with
  | nil => rfl
  | @keep _ _ _ t u ht _ ih =>
    rw [leading_cons, leading_cons, ht.kind_eq, ht.isComment_eq]
    by_cases hleads : t.kind.leads = true
    · rw [if_pos hleads, if_pos hleads]
      by_cases hcomment : t.isComment = true
      · rw [if_pos hcomment, if_pos hcomment, firstHeard_cons, firstHeard_cons,
          ht.text_eq_of_comment ((isComment_iff t).mp hcomment), ih]
      · rw [if_neg hcomment, if_neg hcomment, ih]
    · rw [if_neg hleads, if_neg hleads]
  | @drop _ _ _ t ht _ _ ih =>
    rw [ih, leading_cons, if_pos ht.leads]
    obtain ⟨hcomment, hunheard⟩ | ⟨hdecorator, -⟩ := ht.kind
    · rw [if_pos ((isComment_iff t).mpr hcomment), firstHeard_cons, hunheard]
      rfl
    · rw [if_neg]
      rw [isComment_iff, hdecorator]
      decide

theorem Thinned.firstHeard_leadingComments {t u : Tree} (h : Thinned heard t u) :
    firstHeard heard u.leadingComments = firstHeard heard t.leadingComments := by
  rw [leadingComments_eq, leadingComments_eq, h.children.firstHeard_leading]

end Tree

/-! ## 5. Members -/

variable {heard : String → Bool}

namespace Member

theorem reading_thinned {ds ds' cs cs' : List Tree} {t u : Tree} (h : Tree.Thinned heard t u)
    (ht : t.kind.isMember = true)
    (hsigns : ds'.filterMap Tree.sign? = ds.filterMap Tree.sign?)
    (hcomments : Tree.firstHeard heard cs' = Tree.firstHeard heard cs) :
    (Member.mk u ds' cs').reading heard = (Member.mk t ds cs).reading heard := by
  have hs : (Member.mk u ds' cs').signs = (Member.mk t ds cs).signs := by
    unfold signs
    rw [List.filterMap_append, List.filterMap_append, h.signs_eq, hsigns]
  have hd : Tree.firstHeard heard (cs' ++ u.leadingComments) =
      Tree.firstHeard heard (cs ++ t.leadingComments) := by
    rw [Tree.firstHeard_append, Tree.firstHeard_append, hcomments, h.firstHeard_leadingComments]
  have M := Tree.mirror_thinned heard
  unfold reading Doc.among
  rw [hs, M.name (M.child h ht) ds ds' cs cs', hd]

theorem readings_collect_thinned {p : Tree.Place} {ts us ds ds' cs cs' : List Tree}
    (h : Tree.ThinnedAmong heard (Tree.Thinned heard) p ts us)
    (hsigns : ds'.filterMap Tree.sign? = ds.filterMap Tree.sign?)
    (hcomments : Tree.firstHeard heard cs' = Tree.firstHeard heard cs) :
    (collect ds' cs' us).map (reading heard) = (collect ds cs ts).map (reading heard) := by
  -- the decorators and comments that wait for a member need not be the same in the two bodies
  induction h generalizing ds ds' cs cs' with
  | nil => rfl
  | @keep _ _ _ t u ht _ ih =>
    have hkind : u.kind = t.kind := ht.kind_eq
    by_cases hleads : t.kind.leads = true
    · rcases Kind.leads_cases hleads with hk | hk | hk
      · rw [collect_comment _ _ _ hk, collect_comment _ _ _ (hkind.trans hk)]
        exact ih hsigns (Tree.firstHeard_append_comment ht hk hcomments)
      · rw [collect_decorator _ _ _ hk, collect_decorator _ _ _ (hkind.trans hk)]
        refine ih ?_ hcomments
        rw [List.filterMap_append, List.filterMap_append, hsigns, List.filterMap_cons,
          List.filterMap_cons, ht.sign?_eq hk]
      · rw [collect_token _ _ _ hk, collect_token _ _ _ (hkind.trans hk)]
        exact ih hsigns hcomments
    · by_cases hmember : t.kind.isMember = true
      · rw [collect_member _ _ _ hmember, collect_member _ _ _ (by rwa [hkind]), List.map_cons,
          List.map_cons, reading_thinned ht hmember hsigns hcomments, ih rfl rfl]
      · rw [collect_other _ _ _ hleads hmember,
          collect_other _ _ _ (by rwa [hkind]) (by rwa [hkind])]
        exact ih rfl rfl
  | drop ht _ _ ih =>
    obtain ⟨hk, hunheard⟩ | ⟨hk, hsign⟩ := ht.kind
    · rw [collect_comment _ _ _ hk]
      exact ih hsigns (hcomments.trans (Tree.firstHeard_append_unheard cs hunheard).symm)
    · rw [collect_decorator _ _ _ hk]
      refine ih ?_ hcomments
      rw [List.filterMap_append, List.filterMap_cons_none hsign, hsigns]
      exact (List.append_nil _).symm

end Member

theorem Tree.Thinned.readings_members {t u : Tree} (h : Thinned heard t u) :
    u.members.map (Member.reading heard) = t.members.map (Member.reading heard) := by
  have hbody := h.child? .body
  unfold members
  generalize t.child? .body = b, u.child? .body = b' at hbody ⊢
  cases hbody with
  | none => rfl
  | some hbody => exact Member.readings_collect_thinned hbody.children rfl rfl

end MarkupCatalog

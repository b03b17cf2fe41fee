import MarkupCatalog.Proofs.FileTrees
import MarkupCatalog.Proofs.Texts
import MarkupCatalog.Selection

/-!
# The order of paths

Paths are compared component by component, names by their bytes.  Below one directory this is
the order of the names that lead to a file.
-/

namespace MarkupCatalog

/-! ## 1. Paths below a directory -/

namespace Path

theorem Component.ofPiece?_name {name : RawText} (hname : IsEntryName name) :
    ofPiece? name.bytes = some (.name name) := by
  have hnone : ¬ (name.bytes = [] ∨ name.bytes = [dot]) :=
    fun h => h.elim hname.nonempty hname.notHere
  unfold ofPiece?
  rw [if_neg hnone, if_neg hname.notUp]

theorem components_snoc {p q : Path} {front back : List (List UInt8)} {name : RawText}
    (hname : IsEntryName name) (hfront : front ≠ [])
    (hback : back.filterMap Component.ofPiece? = [])
    (hp : Text.split slash p.raw.bytes = front ++ back)
    (hq : Text.split slash q.raw.bytes = front ++ [name.bytes])
    (habsolute : q.isAbsolute = p.isAbsolute) : q.components = p.components ++ [.name name] := by
  -- both begin alike, so that what leads the components is the same
  have hhead (more : List (List UInt8)) : (front ++ more).head? = front.head? := by
    cases front with
    | nil => exact absurd rfl hfront
    | cons piece front => rfl
  have hlast : [name.bytes].filterMap Component.ofPiece? = [.name name] := by
    rw [List.filterMap_cons, Component.ofPiece?_name hname]
    rfl
  unfold components
  simp only [hp, hq, habsolute, hhead, List.filterMap_append, hback, hlast, List.append_nil,
    List.append_assoc]

theorem isAbsolute_name {name : RawText} (hname : IsEntryName name) :
    isAbsolute ⟨name⟩ = false := by
  unfold isAbsolute
  apply decide_eq_false
  intro hhead
  exact hname.noSlash (List.mem_of_mem_head? hhead)

theorem isAbsolute_append {bytes more : List UInt8} (hbytes : bytes ≠ []) :
    isAbsolute ⟨⟨bytes ++ more⟩⟩ = isAbsolute ⟨⟨bytes⟩⟩ := by
  cases bytes with
  | nil => exact absurd rfl hbytes
  | cons b bytes => rfl

/-- The components of an entry are those of the directory and its name. -/
theorem components_join {root : Path} {name : RawText} (hroot : root.raw.bytes ≠ [])
    (hname : IsEntryName name) :
    (root.join ⟨name⟩).components = root.components ++ [.name name] := by
  have hpieces : Text.split slash name.bytes = [name.bytes] := Text.split_of_not_mem hname.noSlash
  unfold join
  rw [if_neg (by rw [isAbsolute_name hname]; exact Bool.false_ne_true)]
  by_cases hslash : root.endsInSlash = true
  · -- the slash is there, with an empty piece behind it
    rw [if_pos (.inr hslash)]
    obtain ⟨front, hfront⟩ : ∃ front, root.raw.bytes = front ++ [slash] :=
      List.getLast?_eq_some_iff.mp (of_decide_eq_true hslash)
    have hback : [[]].filterMap Component.ofPiece? = [] := rfl
    apply components_snoc hname (Text.split_ne_nil slash front) hback
    · rw [hfront, Text.split_append]
      rfl
    · show Text.split slash (root.raw.bytes ++ name.bytes) = _
      rw [hfront, List.append_assoc, List.singleton_append, Text.split_append, hpieces]
    · exact isAbsolute_append hroot
  · rw [if_neg (not_or.mpr ⟨hroot, hslash⟩)]
    have hback : [].filterMap Component.ofPiece? = [] := rfl
    apply components_snoc hname (Text.split_ne_nil slash root.raw.bytes) hback
    · exact (List.append_nil _).symm
    · show Text.split slash (root.raw.bytes ++ slash :: name.bytes) = _
      rw [Text.split_append, hpieces]
    · exact isAbsolute_append hroot

theorem bytes_join_ne_nil {root : Path} (name : RawText) (hroot : root.raw.bytes ≠ [])
    (hname : IsEntryName name) : (root.join ⟨name⟩).raw.bytes ≠ [] := by
  intro h
  have hcomponents := components_join hroot hname
  have hempty : root.join ⟨name⟩ = ⟨⟨[]⟩⟩ := congrArg (fun bytes => Path.ofRaw ⟨bytes⟩) h
  rw [hempty] at hcomponents
  exact absurd hcomponents (List.append_ne_nil_of_right_ne_nil _ (List.cons_ne_nil _ _)).symm

end Path

namespace Selection

theorem components_pathOf {root : Path} {names : List RawText} (hroot : root.raw.bytes ≠ [])
    (hnames : ∀ name ∈ names, IsEntryName name) :
    (pathOf root names).components = root.components ++ names.map .name := by
  induction names generalizing root with
  | nil => exact (List.append_nil _).symm
  | cons name names ih =>
    have hname := hnames name List.mem_cons_self
    have hrest := fun n hn => hnames n (List.mem_cons_of_mem _ hn)
    calc (pathOf (root.join ⟨name⟩) names).components
      _ = (root.join ⟨name⟩).components ++ names.map .name :=
        ih (Path.bytes_join_ne_nil name hroot hname) hrest
      _ = root.components ++ (name :: names).map .name := by
        rw [Path.components_join hroot hname, List.append_assoc]
        rfl

/-- The last of the names is the name of the file. -/
theorem fileName?_pathOf {root : Path} {names : List RawText} (hroot : root.raw.bytes ≠ [])
    (hnames : ∀ name ∈ names, IsEntryName name) (hne : names ≠ []) :
    (pathOf root names).fileName? = names.getLast? := by
  have hlast : (pathOf root names).components.getLast? = names.getLast?.map .name := by
    rw [components_pathOf hroot hnames, List.getLast?_append, List.getLast?_map,
      List.getLast?_eq_some_getLast hne]
    rfl
  unfold Path.fileName?
  rw [hlast]
  cases names.getLast? <;> rfl

end Selection

/-! ## 2. The order -/

namespace Path

namespace Component

/-- The places of the kinds of components in the order. -/
def rank : Component → Nat
  | root => 0
  | here => 1
  | up => 2
  | name _ => 3

/-- Names come last, in the order of their bytes. -/
inductive Before : Component → Component → Prop
  | rank {c d : Component} (h : c.rank < d.rank) : Before c d
  | name {a b : RawText} (h : a.bytes < b.bytes) : Before (name a) (name b)

end Component

/-- One path comes before another: the first component in which they differ decides. -/
def Before (p q : Path) : Prop := List.Lex Component.Before p.components q.components

end Path

theorem RawText.trichotomy (a b : RawText) : a.bytes < b.bytes ∨ a = b ∨ b.bytes < a.bytes := by
  by_cases h : a.bytes < b.bytes
  · exact .inl h
  · by_cases h' : b.bytes < a.bytes
    · exact .inr (.inr h')
    · have hbytes := List.le_antisymm (List.not_lt.mp h') (List.not_lt.mp h)
      exact .inr (.inl (congrArg RawText.mk hbytes))

namespace Selection

theorem inOrder_cons {a b : RawText} {as bs : List RawText} :
    inOrder (a :: as) (b :: bs) = true ↔ a.bytes < b.bytes ∨ a = b ∧ inOrder as bs = true := by
  rw [inOrder]
  by_cases h : a = b
  · subst h
    simp [List.lt_irrefl]
  · simp [h]

theorem inOrder_trans : ∀ as bs cs : List RawText,
    inOrder as bs = true → inOrder bs cs = true → inOrder as cs = true
  | [], _, _, _, _ => by rw [inOrder]
  | _ :: _, [], _, h, _ => by
    rw [inOrder] at h
    cases h
  | _ :: _, _ :: _, [], _, h => by
    rw [inOrder] at h
    cases h
  | a :: as, b :: bs, c :: cs, h, h' => by
    rw [inOrder_cons] at h h' ⊢
    rcases h with h | ⟨rfl, h⟩
    · rcases h' with h' | ⟨rfl, h'⟩
      · exact .inl (List.lt_trans h h')
      · exact .inl h
    · rcases h' with h' | ⟨rfl, h'⟩
      · exact .inl h'
      · exact .inr ⟨rfl, inOrder_trans as bs cs h h'⟩

theorem inOrder_total : ∀ as bs : List RawText, (inOrder as bs || inOrder bs as) = true
  | [], _ => by rw [inOrder, Bool.true_or]
  | _ :: _, [] => by rw [inOrder, inOrder, Bool.or_true]
  | a :: as, b :: bs => by
    have hrest := inOrder_total as bs
    rw [Bool.or_eq_true] at hrest ⊢
    rw [inOrder_cons, inOrder_cons]
    rcases RawText.trichotomy a b with h | hab | h
    · exact .inl (.inl h)
    · exact hrest.imp (fun h => .inr ⟨hab, h⟩) (fun h => .inr ⟨hab.symm, h⟩)
    · exact .inr (.inl h)

theorem inOrder_antisymm : ∀ {as bs : List RawText},
    inOrder as bs = true → inOrder bs as = true → as = bs
  | [], [], _, _ => rfl
  | [], _ :: _, _, h => by
    rw [inOrder] at h
    cases h
  | _ :: _, [], h, _ => by
    rw [inOrder] at h
    cases h
  | a :: as, b :: bs, h, h' => by
    rw [inOrder_cons] at h h'
    rcases h with h | ⟨rfl, h⟩
    · rcases h' with h' | ⟨rfl, -⟩
      · exact absurd (List.lt_trans h h') (List.lt_irrefl _)
      · exact absurd h (List.lt_irrefl _)
    · rcases h' with h' | ⟨-, h'⟩
      · exact absurd h' (List.lt_irrefl _)
      · rw [inOrder_antisymm h h']

end Selection

theorem Path.Component.Before.irrefl (c : Component) : ¬ c.Before c := by
  rintro (h | h)
  · exact Nat.lt_irrefl _ h
  · exact List.lt_irrefl _ h

/-- No path comes before itself. -/
theorem Path.Before.irrefl (p : Path) : ¬ p.Before p := by
  unfold Path.Before
  induction p.components with
  | nil =>
    intro h
    cases h
  | cons c cs ih =>
    intro h
    cases h with
    | rel h => exact Component.Before.irrefl c h
    | cons h => exact ih h

end MarkupCatalog

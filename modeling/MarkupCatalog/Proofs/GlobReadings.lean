import MarkupCatalog.Proofs.FileTrees
import MarkupCatalog.Proofs.GlobGrammar
import MarkupCatalog.Proofs.RawTexts
import MarkupCatalog.Glob.Rule

/-!
# Readings of globs

What pieces read of a path.  A path has a slash between each two of its names, and no others.  So
pieces that read no slash read one name only, and a piece for the directories from the top on takes
away whole names.
-/

namespace MarkupCatalog.Glob

/-! ## 1. Bytes of paths -/

theorem slash_notMem_bytesOf {name : RawText} (h : IsEntryName name) :
    slash ∉ Rule.bytesOf [name] := h.noSlash

theorem bytesOf_cons_cons (name n : RawText) (names : List RawText) :
    Rule.bytesOf (name :: n :: names) =
      Rule.bytesOf [name] ++ slash :: Rule.bytesOf (n :: names) := rfl

/-- Bytes without slashes are those of one name. -/
theorem eq_singleton_of_notMem {names : List RawText} (hne : names ≠ [])
    (h : slash ∉ Rule.bytesOf names) : ∃ name, names = [name] := by
  cases names with
  | nil => exact absurd rfl hne
  | cons name names =>
    cases names with
    | nil => exact ⟨name, rfl⟩
    | cons n names =>
      rw [bytesOf_cons_cons] at h
      exact absurd (List.mem_append_right _ List.mem_cons_self) h

theorem mem_withinComponent {s r : List UInt8} (h : r ∈ withinComponent s) :
    ∃ t, s = t ++ r ∧ slash ∉ t := by
  induction s with
  | nil =>
    obtain rfl := List.mem_singleton.mp h
    exact ⟨[], rfl, List.not_mem_nil⟩
  | cons b s ih =>
    rw [withinComponent] at h
    split at h
    next =>
      obtain rfl := List.mem_singleton.mp h
      exact ⟨[], rfl, List.not_mem_nil⟩
    next hb =>
      rcases List.mem_cons.mp h with rfl | h
      · exact ⟨[], rfl, List.not_mem_nil⟩
      · obtain ⟨t, rfl, ht⟩ := ih h
        exact ⟨b :: t, rfl, List.not_mem_cons_of_ne_of_not_mem (Ne.symm hb) ht⟩

theorem behindSlashes_append {t : List UInt8} (h : slash ∉ t) (s : List UInt8) :
    behindSlashes (t ++ slash :: s) = s :: behindSlashes s := by
  induction t with
  | nil => exact if_pos rfl
  | cons b t ih =>
    have hb : b ≠ slash := Ne.symm (List.ne_of_not_mem_cons h)
    rw [List.cons_append, behindSlashes, if_neg hb, ih (List.not_mem_of_not_mem_cons h)]

theorem behindSlashes_of_notMem {t : List UInt8} (h : slash ∉ t) : behindSlashes t = [] := by
  induction t with
  | nil => rfl
  | cons b t ih =>
    have hb : b ≠ slash := Ne.symm (List.ne_of_not_mem_cons h)
    rw [behindSlashes, if_neg hb, ih (List.not_mem_of_not_mem_cons h)]

/-- Behind the slashes of a path stand its last names. -/
theorem mem_behindSlashes_bytesOf {names : List RawText} (hnames : ∀ name ∈ names, IsEntryName name)
    {s : List UInt8} : s ∈ behindSlashes (Rule.bytesOf names) ↔
      ∃ front back, names = front ++ back ∧ front ≠ [] ∧ back ≠ [] ∧ s = Rule.bytesOf back := by
  induction names with
  | nil =>
    refine ⟨nofun, ?_⟩
    rintro ⟨front, back, heq, hfront, -⟩
    exact absurd (List.append_eq_nil_iff.mp heq.symm).1 hfront
  | cons name names ih =>
    obtain ⟨hname, hnames⟩ := List.forall_mem_cons.mp hnames
    have hslash := slash_notMem_bytesOf hname
    cases names with
    | nil =>
      rw [behindSlashes_of_notMem hslash]
      refine ⟨nofun, ?_⟩
      rintro ⟨front, back, heq, hfront, hback, -⟩
      rcases List.append_eq_singleton_iff.mp heq.symm with ⟨h, -⟩ | ⟨-, h⟩
      · exact absurd h hfront
      · exact absurd h hback
    | cons n names =>
      rw [bytesOf_cons_cons, behindSlashes_append hslash, List.mem_cons, ih hnames]
      constructor
      · rintro (rfl | ⟨front, back, heq, -, hback, rfl⟩)
        · exact ⟨[name], n :: names, rfl, List.cons_ne_nil _ _, List.cons_ne_nil _ _, rfl⟩
        · exact ⟨name :: front, back, congrArg (name :: ·) heq, List.cons_ne_nil _ _, hback, rfl⟩
      · rintro ⟨front, back, heq, hfront, hback, rfl⟩
        obtain ⟨m, front, rfl⟩ := List.exists_cons_of_ne_nil hfront
        obtain ⟨-, hrest⟩ := List.cons.inj heq
        -- the cut is at the first slash, or at one behind it
        by_cases hempty : front = []
        · subst hempty
          exact .inl (congrArg Rule.bytesOf hrest.symm)
        · exact .inr ⟨front, back, hrest, hempty, hback, rfl⟩

/-! ## 2. Pieces -/

namespace Piece

/-- The piece reads no slash. -/
inductive Within : Piece → Prop
  | byte {b : UInt8} (h : b ≠ slash) : Within (byte b)
  | anyByte : Within anyByte
  | star : Within star
  | oneOf {negated : Bool} {ranges : List (UInt8 × UInt8)}
      (h : (ranges.any fun (lo, hi) => lo ≤ slash && slash ≤ hi) = negated) :
      Within (oneOf negated ranges)

/-- A class of characters with a slash among them. -/
inductive IsOpenClass : Piece → Prop
  | intro {negated : Bool} {ranges : List (UInt8 × UInt8)}
      (h : (ranges.any fun (lo, hi) => lo ≤ slash && slash ≤ hi) ≠ negated) :
      IsOpenClass (oneOf negated ranges)

end Piece

/-- What pieces read that read no slash has none. -/
theorem exists_of_acceptsAll {ps : List Piece} (hps : ∀ p ∈ ps, p.Within) {next : List UInt8 → Bool}
    {s : List UInt8} (h : acceptsAll next s ps = true) :
    ∃ t r, s = t ++ r ∧ slash ∉ t ∧ next r = true := by
  induction ps generalizing s with
  | nil => exact ⟨[], s, rfl, List.not_mem_nil, h⟩
  | cons p ps ih =>
    obtain ⟨hp, hrest⟩ := List.forall_mem_cons.mp hps
    -- a piece that reads one byte adds it to what the others read
    have onByte {c : UInt8} {u : List UInt8} (hc : c ≠ slash) (hu : acceptsAll next u ps = true) :
        ∃ t r, c :: u = t ++ r ∧ slash ∉ t ∧ next r = true := by
      obtain ⟨t, r, rfl, ht, hr⟩ := ih hrest hu
      exact ⟨c :: t, r, rfl, List.not_mem_cons_of_ne_of_not_mem hc.symm ht, hr⟩
    rw [acceptsAll] at h
    cases hp with
    | byte hb =>
      cases s with
      | nil => cases h
      | cons c u =>
        rw [Piece.accepts, Bool.and_eq_true, beq_iff_eq] at h
        exact onByte (h.1 ▸ hb) h.2
    | anyByte =>
      cases s with
      | nil => cases h
      | cons c u =>
        rw [Piece.accepts, Bool.and_eq_true, bne_iff_ne] at h
        exact onByte h.1 h.2
    | star =>
      rw [Piece.accepts, List.any_eq_true] at h
      obtain ⟨u, hu, h⟩ := h
      obtain ⟨t, rfl, ht⟩ := mem_withinComponent hu
      obtain ⟨t', r, rfl, ht', hr⟩ := ih hrest h
      refine ⟨t ++ t', r, (List.append_assoc _ _ _).symm, ?_, hr⟩
      exact fun hmem => (List.mem_append.mp hmem).elim ht ht'
    | oneOf hclass =>
      cases s with
      | nil => cases h
      | cons c u =>
        rw [Piece.accepts, Bool.and_eq_true, bne_iff_ne] at h
        refine onByte ?_ h.2
        rintro rfl
        exact h.1 hclass

theorem slash_notMem_of_acceptsAll {ps : List Piece} (hps : ∀ p ∈ ps, p.Within) {s : List UInt8}
    (h : acceptsAll List.isEmpty s ps = true) : slash ∉ s := by
  obtain ⟨t, r, rfl, ht, hr⟩ := exists_of_acceptsAll hps h
  rwa [List.isEmpty_iff.mp hr, List.append_nil]

/-- A piece for the directories from the top on leaves the last names of a path. -/
theorem acceptsAll_leading_iff {names : List RawText} (hnames : ∀ name ∈ names, IsEntryName name)
    (hne : names ≠ []) (ps : List Piece) :
    acceptsAll List.isEmpty (Rule.bytesOf names) (.leading :: ps) = true ↔
      ∃ front back, names = front ++ back ∧ back ≠ [] ∧
        acceptsAll List.isEmpty (Rule.bytesOf back) ps = true := by
  rw [acceptsAll, Piece.accepts, Bool.or_eq_true, List.any_eq_true]
  constructor
  · rintro (h | ⟨s, hs, h⟩)
    · exact ⟨[], names, rfl, hne, h⟩
    · obtain ⟨front, back, heq, -, hback, rfl⟩ := (mem_behindSlashes_bytesOf hnames).mp hs
      exact ⟨front, back, heq, hback, h⟩
  · rintro ⟨front, back, rfl, hback, h⟩
    by_cases hfront : front = []
    · rw [hfront, List.nil_append]
      exact .inl h
    · have hbehind := (mem_behindSlashes_bytesOf hnames).mpr
        ⟨front, back, rfl, hfront, hback, rfl⟩
      exact .inr ⟨_, hbehind, h⟩

theorem reads_eq_acceptsAll {glob : List Piece} (h : glob ≠ [.leading]) (s : List UInt8) :
    reads glob s = acceptsAll List.isEmpty s glob := by
  unfold reads
  split
  next => exact absurd rfl h
  next => rfl

/-! ## 3. Globs without slashes -/

theorem subset_of_classOf {s r : List Char} {p : Piece} (h : classOf s = .ok (p, r)) : r ⊆ s := by
  have htail (t : List Char) : t.tail ⊆ t := (List.tail_sublist t).subset
  unfold classOf at h
  dsimp only at h
  obtain ⟨ranges, -, h⟩ := bind_eq_ok h
  split at h
  next => cases h
  next c r' hd =>
    obtain rfl : r' = r := (Prod.mk.inj (Except.ok.inj h)).2
    intro x hx
    have hmem := List.mem_cons_of_mem c hx
    rw [← hd] at hmem
    have hrest := htail _ ((List.dropWhile_sublist _).subset hmem)
    split at hrest
    next => exact htail s hrest
    next => exact hrest

theorem within_of_stars : ∀ p ∈ [Piece.star, .star], p.Within := by
  intro p hp
  simp only [List.mem_cons, List.not_mem_nil, or_false, or_self] at hp
  exact hp ▸ .star

theorem within_of_literal {c : Char} (hc : c ≠ '/') : ∀ p ∈ (literal c).reverse, p.Within := by
  intro p hp
  obtain ⟨b, hb, rfl⟩ := literal_eq_byte hp
  refine .byte ?_
  rintro rfl
  exact hc ((RawText.mem_utf8EncodeChar (by decide)).mp hb)

namespace Token

variable {s r : List Char} {c : Char} {qs : List Piece} (h : Token s c qs r)

include h

theorem subset : r ⊆ s := by
  intro x hx
  cases h with
  | oneOf read => exact List.mem_cons_of_mem _ (subset_of_classOf read hx)
  | escaped => exact List.mem_cons_of_mem _ (List.mem_cons_of_mem _ hx)
  | _ => exact List.mem_cons_of_mem _ hx

theorem last_ne (hslash : '/' ∉ s) : some c ≠ some '/' := by
  rintro heq
  cases h with
  | escaped =>
    obtain rfl := Option.some.inj heq
    exact hslash (List.mem_cons_of_mem _ List.mem_cons_self)
  | char =>
    obtain rfl := Option.some.inj heq
    exact hslash List.mem_cons_self
  | _ => cases heq

theorem within (hslash : '/' ∉ s) : ∀ p ∈ qs, p.Within ∨ p.IsOpenClass := by
  have hlast := h.last_ne hslash
  intro p hp
  cases h with
  | anyByte =>
    obtain rfl := List.mem_singleton.mp hp
    exact .inl .anyByte
  | star =>
    obtain rfl := List.mem_singleton.mp hp
    exact .inl .star
  | oneOf read =>
    obtain rfl := List.mem_singleton.mp hp
    obtain ⟨negated, ranges, rfl⟩ := exists_oneOf_of_classOf read
    by_cases hclass : (ranges.any fun (lo, hi) => lo ≤ slash && slash ≤ hi) = negated
    · exact .inl (.oneOf hclass)
    · exact .inr (.intro hclass)
  | escaped => exact .inl (within_of_literal (fun hc => hlast (congrArg some hc)) p hp)
  | char => exact .inl (within_of_literal (fun hc => hlast (congrArg some hc)) p hp)

end Token

/-- Without slashes and braces all further pieces stay within a name, except for classes that have
the slash among their characters. -/
theorem Parses.within {last : Option Char} {groups : List Group} {ps out : List Piece}
    {s : List Char} (h : Parses last groups ps s out) (hgroups : groups = []) (hslash : '/' ∉ s)
    (hbrace : '\x7b' ∉ s) (hlast : last ≠ some '/') (hstars : ps = [] → s ≠ ['*', '*']) :
    ∃ qs, out = ps.reverse ++ qs ∧ ∀ p ∈ qs, p.Within ∨ p.IsOpenClass := by
  -- what is read first comes in front of what is read behind it
  have more {out qs ps : List Piece} (hqs : ∀ p ∈ qs, p.Within ∨ p.IsOpenClass)
      (hrest : ∃ us, out = (qs ++ ps).reverse ++ us ∧ ∀ p ∈ us, p.Within ∨ p.IsOpenClass) :
      ∃ us, out = ps.reverse ++ us ∧ ∀ p ∈ us, p.Within ∨ p.IsOpenClass := by
    obtain ⟨us, rfl, hus⟩ := hrest
    refine ⟨qs.reverse ++ us, by rw [List.reverse_append, List.append_assoc], fun p hp => ?_⟩
    rcases List.mem_append.mp hp with hp | hp
    · exact hqs p (List.mem_reverse.mp hp)
    · exact hus p hp
  induction h with
  | done last ps => exact ⟨[], (List.append_nil _).symm, nofun⟩
  | token token rest ih =>
    have hne := List.append_ne_nil_of_left_ne_nil token.pieces_ne_nil
    exact more (token.within hslash) (ih hgroups (fun hr => hslash (token.subset hr))
      (fun hr => hbrace (token.subset hr)) (token.last_ne hslash)
      (fun hnil => absurd hnil (hne _)))
  | @stars last groups ps r out rest ih =>
    subst hgroups
    have hr : '/' ∉ r :=
      List.not_mem_of_not_mem_cons (List.not_mem_of_not_mem_cons hslash)
    have hplain : afterStars last false ps r = (.star :: .star :: ps, '*', r) := by
      by_cases hps : ps = []
      · subst hps
        apply afterStars_of_notMem hr
        rintro rfl
        exact hstars rfl rfl
      · exact afterStars_of_ne hlast hps r
    have hstar : ∀ p ∈ [Piece.star, .star], p.Within ∨ p.IsOpenClass :=
      fun p hp => .inl (within_of_stars p hp)
    simp only [List.isEmpty_nil, Bool.not_true, hplain] at ih
    exact more hstar (ih trivial hr
      (List.not_mem_of_not_mem_cons (List.not_mem_of_not_mem_cons hbrace)) (by decide) nofun)
  | opening => exact absurd List.mem_cons_self hbrace
  | closing => cases hgroups
  | comma => cases hgroups
  | freeComma rest ih =>
    have hne := List.append_ne_nil_of_left_ne_nil (literal_ne_nil ',')
    have hcomma : ∀ p ∈ (literal ',').reverse, p.Within ∨ p.IsOpenClass :=
      fun p hp => .inl (within_of_literal (by decide) p hp)
    exact more hcomma (ih rfl (List.not_mem_of_not_mem_cons hslash)
      (List.not_mem_of_not_mem_cons hbrace) (by decide) (fun hnil => absurd hnil (hne _)))

/-- The class `[!x]` is open, and the class `[x]` is not. -/
example : (Piece.oneOf true [('x'.toUInt8, 'x'.toUInt8)]).IsOpenClass ∧
    (Piece.oneOf false [('x'.toUInt8, 'x'.toUInt8)]).Within :=
  ⟨⟨by decide⟩, .oneOf (by decide)⟩

end MarkupCatalog.Glob

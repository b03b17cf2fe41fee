import MarkupCatalog.Grammar.Unit
import MarkupCatalog.Json.Scalar
import MarkupCatalog.Proofs.Texts
import MarkupCatalog.Tree.Quoted

/-!
# Spellings of strings

A string may be written as a literal in many ways: in quotes of two kinds or as a template, and each
of its characters as it is or by an escape.  The string that a literal denotes is given by its code
units, since an escape may stand for one half of a pair.  Not every literal is read as the string
that it denotes: exactly the plain ones are, which have no other escapes in quotes than those that
are known, and none in templates.
-/

namespace MarkupCatalog

/-! ## 1. Code units -/

namespace Text

/-- The code units of a code point: one, or the two halves of a pair. -/
def unitsOf (n : Nat) : List Nat :=
  if n < 0x10000 then [n] else [0xd800 + (n - 0x10000) / 0x400, 0xdc00 + (n - 0x10000) % 0x400]

def units (s : List Char) : List Nat := s.flatMap fun c => unitsOf c.toNat

theorem units_append (s t : List Char) : units (s ++ t) = units s ++ units t :=
  List.flatMap_append

theorem units_cons (c : Char) (s : List Char) : units (c :: s) = unitsOf c.toNat ++ units s :=
  List.flatMap_cons

theorem units_singleton (c : Char) : units [c] = unitsOf c.toNat := List.append_nil _

theorem length_unitsOf (n : Nat) : 1 ≤ (unitsOf n).length ∧ (unitsOf n).length ≤ 2 := by
  unfold unitsOf
  split
  next => exact ⟨Nat.le_refl 1, Nat.le_succ 1⟩
  next => exact ⟨Nat.le_succ 1, Nat.le_refl 2⟩

theorem length_le_units (s : List Char) : s.length ≤ (units s).length := by
  induction s with
  | nil => exact Nat.le_refl _
  | cons c s ih =>
    have hc := (length_unitsOf c.toNat).1
    rw [units_cons, List.length_append, List.length_cons]
    omega

/-- The first units of a text say what its first character is. -/
theorem unitsOf_append_inj {c d : Char} {us vs : List Nat}
    (h : unitsOf c.toNat ++ us = unitsOf d.toNat ++ vs) : c = d ∧ us = vs := by
  -- no character is a half of a pair
  have hscalar (c : Char) : c.toNat < 0xd800 ∨ 0xdfff < c.toNat ∧ c.toNat < 0x110000 := c.valid
  have hc := hscalar c
  have hd := hscalar d
  unfold unitsOf at h
  split at h <;> split at h
  · simp only [List.cons_append, List.nil_append, List.cons.injEq] at h
    exact ⟨Char.toNat_inj.mp h.1, h.2⟩
  · simp only [List.cons_append, List.nil_append, List.cons.injEq] at h
    omega
  · simp only [List.cons_append, List.nil_append, List.cons.injEq] at h
    omega
  · simp only [List.cons_append, List.nil_append, List.cons.injEq] at h
    exact ⟨Char.toNat_inj.mp (by omega), h.2.2⟩

theorem units_injective {s t : List Char} (h : units s = units t) : s = t := by
  have hpos (c : Char) (s : List Char) : units (c :: s) ≠ [] := by
    intro hnil
    have hlength := length_le_units (c :: s)
    rw [hnil] at hlength
    exact absurd hlength (by simp)
  induction s generalizing t with
  | nil =>
    cases t with
    | nil => rfl
    | cons d t => exact absurd h.symm (hpos d t)
  | cons c s ih =>
    cases t with
    | nil => exact absurd h (hpos c s)
    | cons d t =>
      rw [units_cons, units_cons] at h
      obtain ⟨rfl, hrest⟩ := unitsOf_append_inj h
      rw [ih hrest]

end Text

namespace Tree

open Text

/-! ## 2. Escapes -/

/-- The code units that have a letter or the zero for a name. -/
def namedUnits : List (Char × Nat) :=
  [('0', 0), ('b', 8), ('t', 9), ('n', 10), ('v', 11), ('f', 12), ('r', 13)]

def lineBreaks : List (List Char) := [['\n'], ['\r'], ['\r', '\n'], ['\u2028'], ['\u2029']]

/-- The characters that do not stand for themselves behind a backslash: digits, the letters that
escapes start with, and line breaks. -/
def specialCharacters : List Char := "0123456789bfnrtvxu\n\r\u2028\u2029".toList

/-- What stands behind the backslash of an escape, and the code units that it stands for.  A line
break continues the literal on the next line. -/
inductive Escapes : List Char → List Nat → Prop
  | itself {c : Char} (hc : c ∉ specialCharacters) : Escapes [c] (unitsOf c.toNat)
  | named {c : Char} {n : Nat} (h : (c, n) ∈ namedUnits) : Escapes [c] [n]
  | byte {a b : Char} {n : Nat} (h : Json.hexValueOf? [a, b] = some n) : Escapes ['x', a, b] [n]
  | unit {a b c d : Char} {n : Nat} (h : Json.hexValueOf? [a, b, c, d] = some n) :
      Escapes ['u', a, b, c, d] [n]
  | point {digits : List Char} {n : Nat} (hne : digits ≠ [])
      (h : Json.hexValueOf? digits = some n) (hn : n < 0x110000) :
      Escapes ('u' :: '\x7b' :: digits ++ ['\x7d']) (unitsOf n)
  | lineBreak {b : List Char} (hb : b ∈ lineBreaks) : Escapes b []

/-- The escapes that are known: a backslash and one character, but for line breaks and four of the
characters that name a unit. -/
def isKnownEscape : List Char → Bool
  | ['\\', c] => c ∉ "0bvf\n\r\u2028\u2029".toList
  | _ => false

/-- An escape of several characters stands for fewer units than there are in what is read. -/
theorem units_unescape_of_length {e : List Char} {us : List Nat} (he : e.length ≠ 1)
    (h : us.length < e.length) :
    us.length ≤ (units (unescape ('\\' :: e))).length ∧
      (units (unescape ('\\' :: e)) = us ↔ isKnownEscape ('\\' :: e)) := by
  have hother {c : Char} : '\\' :: e ≠ ['\\', c] := by
    intro heq
    rw [(List.cons.inj heq).2] at he
    exact he rfl
  have hread : unescape ('\\' :: e) = e := by
    unfold unescape
    rw [if_neg hother, if_neg hother, if_neg hother]
    rfl
  have hunknown : isKnownEscape ('\\' :: e) = false := by
    unfold isKnownEscape
    split
    next c heq => exact absurd heq hother
    next => rfl
  have hlength := length_le_units e
  rw [hread, hunknown]
  refine ⟨by omega, iff_of_false ?_ Bool.false_ne_true⟩
  rintro rfl
  omega

/-- What is read for an escape has no fewer units than the escape stands for, and is what it stands
for if and only if the escape is known. -/
theorem Escapes.units_unescape {e : List Char} {us : List Nat} (h : Escapes e us) :
    us.length ≤ (units (unescape ('\\' :: e))).length ∧
      (units (unescape ('\\' :: e)) = us ↔ isKnownEscape ('\\' :: e)) := by
  cases h with
  | @itself c hc =>
    have hread : unescape ['\\', c] = [c] := by
      have hne : ∀ d ∈ ['n', 't', 'r'], c ≠ d := by
        rintro d hd rfl
        have hspecial : ∀ d ∈ ['n', 't', 'r'], d ∈ specialCharacters := by decide
        exact hc (hspecial c hd)
      simp [unescape, hne]
    have hknown : isKnownEscape ['\\', c] = true := by
      have hspecial : ∀ d ∈ "0bvf\n\r\u2028\u2029".toList, d ∈ specialCharacters := by decide
      exact decide_eq_true fun hmem => hc (hspecial c hmem)
    rw [hread, units_singleton]
    exact ⟨Nat.le_refl _, iff_of_true rfl hknown⟩
  | @named c n h =>
    have hall : ∀ p ∈ namedUnits, 1 ≤ (units (unescape ['\\', p.1])).length ∧
        (units (unescape ['\\', p.1]) = [p.2] ↔ isKnownEscape ['\\', p.1]) := by decide
    exact hall _ h
  | byte => exact units_unescape_of_length (by simp) (by simp)
  | unit => exact units_unescape_of_length (by simp) (by simp)
  | @point digits n hne h hn =>
    have hlength := (length_unitsOf n).2
    exact units_unescape_of_length (by simp) (by simp; omega)
  | lineBreak hb =>
    have hall : ∀ b ∈ lineBreaks, 0 ≤ (units (unescape ('\\' :: b))).length ∧
        (units (unescape ('\\' :: b)) = [] ↔ isKnownEscape ('\\' :: b)) := by decide
    exact hall _ hb

/-! ## 3. Literals -/

/-- A character that may stand in a literal as it is.  Only templates go over several lines. -/
def IsDirect (quote c : Char) : Prop :=
  c ≠ quote ∧ c ≠ '\\' ∧ (quote ≠ '\x60' → c ≠ '\n' ∧ c ≠ '\r')

instance (quote c : Char) : Decidable (IsDirect quote c) :=
  inferInstanceAs (Decidable (_ ∧ _ ∧ (_ → _)))

/-- A text with line feeds for carriage returns, and for those together with a line feed. -/
def lineFeeds : List Char → List Char
  | [] => []
  | '\r' :: '\n' :: s => '\n' :: lineFeeds s
  | '\r' :: s => '\n' :: lineFeeds s
  | c :: s => c :: lineFeeds s

/-- A part of a literal, and the code units that it stands for. -/
inductive Spells (quote : Char) : Tree → List Nat → Prop
  | fragment {s : String} (hs : ∀ c ∈ s.toList, IsDirect quote c) :
      Spells quote (.leaf .stringFragment s) (units (lineFeeds s.toList))
  | escape {s : String} {e : List Char} {us : List Nat} (hs : s.toList = '\\' :: e)
      (he : Escapes e us) : Spells quote (.leaf .escapeSequence s) us

theorem Spells.fragment_of_eq {quote : Char} {s : String} {us : List Nat}
    (hs : ∀ c ∈ s.toList, IsDirect quote c) (hus : units (lineFeeds s.toList) = us) :
    Spells quote (.leaf .stringFragment s) us := hus ▸ .fragment hs

/-- The parts of a literal in their order. -/
inductive SpellsAll (quote : Char) : List Tree → List Nat → Prop
  | nil : SpellsAll quote [] []
  | cons {part : Tree} {parts : List Tree} {us vs : List Nat} (hpart : Spells quote part us)
      (hparts : SpellsAll quote parts vs) : SpellsAll quote (part :: parts) (us ++ vs)

def textOf (parts : List Tree) : List Char := parts.flatMap fun part => part.text.toList

def delimiter (quote : Char) : Tree := .leaf .token (String.singleton quote)

def kindOf (quote : Char) : Kind := if quote = '\x60' then .templateString else .string

/-- A literal with its parts between two delimiters. -/
def literal (quote : Char) (label : Option Label) (parts : List Tree) : Tree :=
  .node (kindOf quote) label (String.ofList (quote :: textOf parts ++ [quote]))
    (delimiter quote :: parts ++ [delimiter quote])

/-- A literal, and the code units of the string that it denotes. -/
inductive Denotes : Tree → List Nat → Prop
  | literal {quote : Char} {label : Option Label} {parts : List Tree} {us : List Nat}
      (hquote : quote ∈ ['\x27', '\x22', '\x60']) (h : SpellsAll quote parts us) :
      Denotes (literal quote label parts) us

/-- A part of a literal that is read as what it stands for: in quotes any but the unknown escapes,
in a template all but escapes and carriage returns. -/
abbrev IsPlainPart (kind : Kind) (part : Tree) : Prop :=
  if kind = .templateString then part.kind ≠ .escapeSequence ∧ '\r' ∉ part.text.toList
  else part.kind = .escapeSequence → isKnownEscape part.text.toList

def IsPlain (t : Tree) : Prop := ∀ part ∈ t.children, IsPlainPart t.kind part

instance (t : Tree) : Decidable t.IsPlain := List.decidableBAll _ _

/-! ## 4. Parts -/

/-- What is read for a part of a literal. -/
def readPart (kind : Kind) (part : Tree) : List Char :=
  if kind = .templateString then part.text.toList else stringPart part

theorem units_lineFeeds (s : List Char) :
    (units (lineFeeds s)).length ≤ (units s).length ∧
      (units s = units (lineFeeds s) ↔ '\r' ∉ s) := by
  fun_induction lineFeeds s with
  | case1 => exact ⟨Nat.le_refl _, iff_of_true rfl List.not_mem_nil⟩
  | case2 s ih =>
    have hlength : (units ('\r' :: '\n' :: s)).length = (units s).length + 2 := by
      simp [units_cons, unitsOf]
    have hlength' : (units ('\n' :: lineFeeds s)).length = (units (lineFeeds s)).length + 1 := by
      simp [units_cons, unitsOf]
    refine ⟨by omega, iff_of_false ?_ (by simp)⟩
    intro heq
    rw [heq] at hlength
    omega
  | case3 s _ ih =>
    have hcr : units ('\r' :: s) = 13 :: units s := rfl
    have hlf : units ('\n' :: lineFeeds s) = 10 :: units (lineFeeds s) := rfl
    rw [hcr, hlf]
    refine ⟨Nat.succ_le_succ ih.1, iff_of_false ?_ (by simp)⟩
    intro heq
    exact absurd (List.cons.inj heq).1 (by decide)
  | case4 c s hcrlf hcr ih =>
    have hne : '\r' ≠ c := fun h => hcr h.symm
    rw [units_cons, units_cons, List.length_append, List.length_append, List.append_cancel_left_eq,
      List.mem_cons, or_iff_right hne]
    exact ⟨Nat.add_le_add_left ih.1 _, ih.2⟩

theorem length_units_unescape (e : List Char) :
    (units (unescape ('\\' :: e))).length < (units ('\\' :: e)).length := by
  have hslash : units ('\\' :: e) = 92 :: units e := rfl
  rw [hslash, List.length_cons, Nat.lt_succ_iff]
  by_cases hletter : e ∈ [['n'], ['t'], ['r']]
  · have hall : ∀ e ∈ [['n'], ['t'], ['r']],
        (units (unescape ('\\' :: e))).length ≤ (units e).length := by decide
    exact hall e hletter
  · have hread : unescape ('\\' :: e) = e := by
      simp only [List.mem_cons, List.not_mem_nil, or_false, not_or] at hletter
      simp [unescape, hletter]
    rw [hread]

theorem Spells.units_readPart {quote : Char} {part : Tree} {us : List Nat}
    (h : Spells quote part us) :
    us.length ≤ (units (readPart (kindOf quote) part)).length ∧
      (units (readPart (kindOf quote) part) = us ↔ IsPlainPart (kindOf quote) part) := by
  unfold kindOf readPart IsPlainPart
  by_cases hquote : quote = '\x60'
  · simp only [if_pos hquote, if_true]
    cases h with
    | @fragment s hs =>
      obtain ⟨hlength, hiff⟩ := units_lineFeeds s.toList
      exact ⟨hlength, hiff.trans (by simp [leaf])⟩
    | @escape s e us hs he =>
      -- in a template the backslash is read too
      have hlength := he.units_unescape.1.trans_lt (length_units_unescape e)
      rw [← hs] at hlength
      refine ⟨hlength.le, iff_of_false ?_ (by simp [leaf])⟩
      rintro rfl
      exact Nat.lt_irrefl _ hlength
  · have hkind : Kind.string ≠ .templateString := by decide
    simp only [if_neg hquote, if_neg hkind]
    cases h with
    | @fragment s hs =>
      have hcr : '\r' ∉ s.toList := fun hmem => ((hs _ hmem).2.2 hquote).2 rfl
      obtain ⟨hlength, hiff⟩ := units_lineFeeds s.toList
      exact ⟨hlength, iff_of_true (hiff.mpr hcr) nofun⟩
    | @escape s e us hs he =>
      have hread : stringPart (leaf .escapeSequence s) = unescape ('\\' :: e) :=
        congrArg unescape hs
      obtain ⟨hlength, hiff⟩ := he.units_unescape
      rw [hread]
      exact ⟨hlength, hiff.trans (by simp [leaf, hs])⟩

/-! ## 5. Values of literals -/

/-- Two lists, neither part of which is shorter than that of the other, are equal part by part. -/
theorem append_eq_append_iff_of_length_le {us us' vs vs' : List Nat} (hus : us'.length ≤ us.length)
    (hvs : vs'.length ≤ vs.length) : us ++ vs = us' ++ vs' ↔ us = us' ∧ vs = vs' := by
  constructor
  · intro h
    have hlengths := congrArg List.length h
    rw [List.length_append, List.length_append] at hlengths
    exact List.append_inj h (by omega)
  · rintro ⟨rfl, rfl⟩
    rfl

theorem SpellsAll.units_readParts {quote : Char} {parts : List Tree} {us : List Nat}
    (h : SpellsAll quote parts us) :
    us.length ≤ (units (parts.flatMap (readPart (kindOf quote)))).length ∧
      (units (parts.flatMap (readPart (kindOf quote))) = us ↔
        ∀ part ∈ parts, IsPlainPart (kindOf quote) part) := by
  induction h with
  | nil => exact ⟨Nat.le_refl _, iff_of_true rfl nofun⟩
  | cons hpart _ ih =>
    obtain ⟨hlength, hiff⟩ := hpart.units_readPart
    -- what one part lacks no other can make up for, as none is read as fewer units
    rw [List.flatMap_cons, units_append, append_eq_append_iff_of_length_le hlength ih.1, hiff, ih.2,
      List.forall_mem_cons, List.length_append, List.length_append]
    exact ⟨Nat.add_le_add hlength ih.1, Iff.rfl⟩

theorem Spells.kind_ne {quote : Char} {part : Tree} {us : List Nat} (h : Spells quote part us) :
    part.kind ≠ .templateSubstitution := by
  cases h <;> exact nofun

theorem SpellsAll.kind_ne {quote : Char} {parts : List Tree} {us : List Nat}
    (h : SpellsAll quote parts us) : ∀ part ∈ parts, part.kind ≠ .templateSubstitution := by
  induction h with
  | nil => exact nofun
  | cons hpart _ ih => exact List.forall_mem_cons.mpr ⟨hpart.kind_ne, ih⟩

theorem stringValue?_quoted (quote : Char) (label : Option Label) (text : String)
    (parts : List Tree) :
    (node .string label text (delimiter quote :: parts ++ [delimiter quote])).stringValue? =
      some (String.ofList (parts.flatMap stringPart)) := by
  have hdelimiter : stringPart (delimiter quote) = [] := rfl
  simp [stringValue?, hdelimiter]

theorem templateText_delimited (s : List Char) : templateText ('\x60' :: s ++ ['\x60']) = s := by
  have hopened : after? ['\x60'] ('\x60' :: s ++ ['\x60']) = some (s ++ ['\x60']) :=
    after?_append ['\x60'] _
  rw [templateText, hopened, Option.bind_some, before?_append, Option.getD_some]

section Literal

variable {quote : Char} {label : Option Label} {parts : List Tree}

theorem stringValue?_literal {us : List Nat} (h : SpellsAll quote parts us) :
    (literal quote label parts).stringValue? =
      some (String.ofList (parts.flatMap (readPart (kindOf quote)))) := by
  by_cases hquote : quote = '\x60'
  · -- a template is read from its text, not from its parts
    subst hquote
    have hwhole : (literal '\x60' label parts).children.any
        (fun part => part.kind == .templateSubstitution) = false := by
      simpa [literal, delimiter, leaf] using h.kind_ne
    have htext : (literal '\x60' label parts).text.toList = '\x60' :: textOf parts ++ ['\x60'] :=
      String.toList_ofList
    show (if _ then none else some (String.ofList (templateText _))) = _
    rw [hwhole, if_neg Bool.false_ne_true, htext, templateText_delimited]
    rfl
  · have hkind : kindOf quote = .string := if_neg hquote
    have hread : readPart .string = stringPart := rfl
    rw [literal, hkind, stringValue?_quoted, hread]

theorem isPlain_literal (hquote : quote ∈ ['\x27', '\x22', '\x60']) :
    (literal quote label parts).IsPlain ↔ ∀ part ∈ parts, IsPlainPart (kindOf quote) part := by
  have hdelimiter : IsPlainPart (kindOf quote) (delimiter quote) := by
    have hcr : '\r' ≠ quote := (ne_of_mem_of_not_mem hquote (by decide)).symm
    unfold IsPlainPart
    split
    next => exact ⟨nofun, by simpa [delimiter, leaf] using hcr⟩
    next => exact nofun
  show (∀ part ∈ delimiter quote :: parts ++ [delimiter quote], IsPlainPart (kindOf quote) part) ↔ _
  rw [List.forall_mem_append, List.forall_mem_cons, List.forall_mem_singleton]
  exact ⟨fun h => h.1.2, fun h => ⟨⟨hdelimiter, h⟩, hdelimiter⟩⟩

end Literal

theorem Denotes.value {t : Tree} {us : List Nat} (h : Denotes t us) :
    ∃ s, t.stringValue? = some s ∧ (units s.toList = us ↔ t.IsPlain) := by
  cases h with
  | literal hquote h =>
    refine ⟨_, stringValue?_literal h, ?_⟩
    rw [String.toList_ofList, isPlain_literal hquote]
    exact h.units_readParts.2

/-- A literal has the same value as a plain one of the same string if and only if it is plain. -/
theorem stringValue?_eq_iff {t t' : Tree} {us : List Nat} (h : Denotes t us) (h' : Denotes t' us)
    (hplain : t'.IsPlain) : t.stringValue? = t'.stringValue? ↔ t.IsPlain := by
  obtain ⟨s, hs, hiff⟩ := h.value
  obtain ⟨s', hs', hiff'⟩ := h'.value
  have hunits : units s'.toList = us := hiff'.mpr hplain
  rw [hs, hs', Option.some_inj, ← hiff, ← hunits]
  exact ⟨fun heq => heq ▸ rfl, fun heq => String.toList_injective (units_injective heq)⟩

/-- An apostrophe in a template, behind a backslash in quotes, and as its code in quotes. -/
theorem stringValue?_eq_iff_apostrophe :
    let template := literal '\x60' none [leaf .stringFragment "it's"]
    let escaped := literal '\x22' none
      [leaf .stringFragment "it", leaf .escapeSequence "\\'", leaf .stringFragment "s"]
    let coded := literal '\x22' none
      [leaf .stringFragment "it", leaf .escapeSequence "\\x27", leaf .stringFragment "s"]
    (∀ t ∈ [template, escaped, coded], Denotes t [0x69, 0x74, 0x27, 0x73]) ∧ template.IsPlain ∧
      escaped.stringValue? = template.stringValue? ∧
      coded.stringValue? ≠ template.stringValue? := by
  intro template escaped coded
  have it : Spells '\x22' (leaf .stringFragment "it") [0x69, 0x74] :=
    .fragment_of_eq (by decide) (by decide)
  have s : Spells '\x22' (leaf .stringFragment "s") [0x73] :=
    .fragment_of_eq (by decide) (by decide)
  have whole : Spells '\x60' (leaf .stringFragment "it's") [0x69, 0x74, 0x27, 0x73] :=
    .fragment_of_eq (by decide) (by decide)
  have mark : Spells '\x22' (leaf .escapeSequence "\\'") [0x27] :=
    .escape (e := ['\x27']) rfl (.itself (by decide))
  have code : Spells '\x22' (leaf .escapeSequence "\\x27") [0x27] :=
    .escape (e := ['x', '2', '7']) rfl (.byte (by decide))
  have htemplate : Denotes template [0x69, 0x74, 0x27, 0x73] :=
    .literal (by decide) (.cons whole .nil)
  have hescaped : Denotes escaped [0x69, 0x74, 0x27, 0x73] :=
    .literal (by decide) (.cons it (.cons mark (.cons s .nil)))
  have hcoded : Denotes coded [0x69, 0x74, 0x27, 0x73] :=
    .literal (by decide) (.cons it (.cons code (.cons s .nil)))
  have hplain : template.IsPlain := by decide
  refine ⟨?_, hplain, ?_, ?_⟩
  · simp only [List.forall_mem_cons]
    exact ⟨htemplate, hescaped, hcoded, nofun⟩
  · exact (stringValue?_eq_iff hescaped htemplate hplain).mpr (by decide)
  · exact fun h => absurd ((stringValue?_eq_iff hcoded htemplate hplain).mp h) (by decide)

/-- The code of a letter is read in quotes without its backslash, and in a template as it is
written. -/
theorem stringValue?_code_of_letter :
    let direct := literal '\x27' none [leaf .stringFragment "A"]
    let coded := literal '\x27' none [leaf .escapeSequence "\\x41"]
    let template := literal '\x60' none [leaf .escapeSequence "\\x41"]
    (∀ t ∈ [direct, coded, template], Denotes t [0x41]) ∧
      (Terminal.string.read (.ofText "'A'".toList)).map Prod.fst = some [direct] ∧
      (Terminal.string.read (.ofText "'\\x41'".toList)).map Prod.fst = some [coded] ∧
      ((Rule.the .templateString).parse (Rule.form .typeScript) 50
        (.ofText "\x60\\x41\x60".toList)).map Prod.fst = some [template] ∧
      direct.stringValue? = some "A" ∧ coded.stringValue? = some "x41" ∧
      template.stringValue? = some "\\x41" ∧
      ¬ ∀ t t' us, Denotes t us → Denotes t' us → t.stringValue? = t'.stringValue? := by
  intro direct coded template
  have hescape : Escapes ['x', '4', '1'] [0x41] := .byte (by decide)
  have letter : Spells '\x27' (leaf .stringFragment "A") [0x41] :=
    .fragment_of_eq (by decide) (by decide)
  have hdirect : Denotes direct [0x41] := .literal (by decide) (.cons letter .nil)
  have hcoded : Denotes coded [0x41] := .literal (by decide) (.cons (.escape rfl hescape) .nil)
  have htemplate : Denotes template [0x41] :=
    .literal (by decide) (.cons (.escape rfl hescape) .nil)
  refine ⟨?_, rfl, rfl, rfl, by decide, by decide, by decide, ?_⟩
  · simp only [List.forall_mem_cons]
    exact ⟨hdirect, hcoded, htemplate, nofun⟩
  · intro hall
    exact absurd (hall direct coded _ hdirect hcoded) (by decide)

end Tree
end MarkupCatalog

import MarkupCatalog.Proofs.ParsedTrees
import MarkupCatalog.Proofs.StringSpellings

/-!
# Strings in quotes

How any string is written in quotes: with a backslash before backslashes and quotes, and with
letters for line feeds, tabs and carriage returns.  The text between the quotes may be cut into
parts in any way that keeps its escapes whole; the value of the literal is always the string.
-/

namespace MarkupCatalog

open Text

namespace Tree

/-! ## 1. How strings are written -/

/-- How a character is written between quotes. -/
def quotedChar (quote c : Char) : List Char :=
  if c = '\\' ∨ c = quote then ['\\', c]
  else if c = '\n' then ['\\', 'n']
  else if c = '\t' then ['\\', 't']
  else if c = '\r' then ['\\', 'r']
  else [c]

def quoted (quote : Char) (s : List Char) : List Char := s.flatMap (quotedChar quote)

theorem quoted_cons (quote c : Char) (s : List Char) :
    quoted quote (c :: s) = quotedChar quote c ++ quoted quote s := List.flatMap_cons

/-- The characters that the longer escapes start with. -/
def longStarts : List Char := "01234567ux\r".toList

/-- A character behind a backslash that is an escape by itself, and what it is read as. -/
structure IsShort (x c : Char) : Prop where
  spells : Escapes [x] (unitsOf c.toNat)
  read : unescape ['\\', x] = [c]
  short : x ∉ longStarts

theorem IsShort.known {x c : Char} (h : IsShort x c) : isKnownEscape ['\\', x] :=
  h.spells.units_unescape.2.mp (by rw [h.read, units_singleton])

theorem Escapes.length_eq_one {e : List Char} {us : List Nat} (h : Escapes e us)
    (hstart : ∀ x ∈ e.head?, x ∉ longStarts) : e.length = 1 := by
  have hbreaks : ∀ b ∈ lineBreaks, (∀ x ∈ b.head?, x ∉ longStarts) → b.length = 1 := by decide
  cases h with
  | itself => rfl
  | named => rfl
  | byte => exact absurd (hstart _ rfl) (by decide)
  | unit => exact absurd (hstart _ rfl) (by decide)
  | point => exact absurd (hstart _ rfl) (by decide)
  | lineBreak hb => exact hbreaks _ hb hstart

/-- Behind a character that starts none of the longer escapes an escape ends. -/
theorem Escapes.eq_singleton {e : List Char} {us : List Nat} (h : Escapes e us) {x : Char}
    {text rest : List Char} (hx : x ∉ longStarts) (heq : e ++ text = [x] ++ rest) :
    e = [x] ∧ text = rest := by
  have hstart : ∀ y ∈ e.head?, y ∉ longStarts := by
    intro y hy
    have hhead : some x = some y := by
      calc some x = (e ++ text).head? := (congrArg List.head? heq).symm
        _ = some y := by rw [List.head?_append, Option.mem_def.mp hy, Option.some_or]
    exact Option.some.inj hhead ▸ hx
  exact List.append_inj heq (h.length_eq_one hstart)

section Written

variable {quote : Char} (hquote : quote ∈ ['\x27', '\x22'])

include hquote

/-- A character is written as it is, or by an escape of one character. -/
theorem quotedChar_cases (c : Char) :
    (quotedChar quote c = [c] ∧ IsDirect quote c) ∨
      ∃ x, quotedChar quote c = ['\\', x] ∧ IsShort x c := by
  have hquotes : ∀ quote ∈ ['\x27', '\x22'], quote ∉ specialCharacters ∧
      unescape ['\\', quote] = [quote] ∧ quote ∉ longStarts := by decide
  unfold quotedChar
  split_ifs with hself hfeed htab hreturn
  · refine .inr ⟨c, rfl, ?_⟩
    rcases hself with rfl | rfl
    · exact ⟨.itself (by decide), rfl, by decide⟩
    · obtain ⟨hitself, hread, hshort⟩ := hquotes c hquote
      exact ⟨.itself hitself, hread, hshort⟩
  · subst hfeed
    exact .inr ⟨'n', rfl, .named (by decide), rfl, by decide⟩
  · subst htab
    exact .inr ⟨'t', rfl, .named (by decide), rfl, by decide⟩
  · subst hreturn
    exact .inr ⟨'r', rfl, .named (by decide), rfl, by decide⟩
  · rw [not_or] at hself
    exact .inl ⟨rfl, hself.2, hself.1, fun _ => ⟨hfeed, hreturn⟩⟩

theorem quotedChar_ne_nil (c : Char) : quotedChar quote c ≠ [] := by
  rcases quotedChar_cases hquote c with ⟨hc, -⟩ | ⟨x, hc, -⟩ <;> rw [hc] <;> exact nofun

/-- Characters without a backslash stand for themselves. -/
theorem eq_append_of_quoted_eq {s w text : List Char} (hw : ∀ c ∈ w, c ≠ '\\')
    (h : quoted quote s = w ++ text) : ∃ s', s = w ++ s' ∧ quoted quote s' = text := by
  induction w generalizing s with
  | nil => exact ⟨s, rfl, h⟩
  | cons c w ih =>
    cases s with
    | nil => cases h
    | cons d s =>
      rw [quoted_cons] at h
      rcases quotedChar_cases hquote d with ⟨hd, -⟩ | ⟨x, hd, -⟩
      · rw [hd] at h
        obtain ⟨rfl, hrest⟩ := List.cons.inj h
        obtain ⟨s', rfl, hs'⟩ := ih (fun c hc => hw c (List.mem_cons_of_mem _ hc)) hrest
        exact ⟨s', rfl, hs'⟩
      · rw [hd] at h
        exact absurd (List.cons.inj h).1.symm (hw c List.mem_cons_self)

/-- A backslash starts an escape of one character. -/
theorem eq_cons_of_quoted_eq {s text : List Char} (h : quoted quote s = '\\' :: text) :
    ∃ c x s', s = c :: s' ∧ IsShort x c ∧ text = x :: quoted quote s' := by
  cases s with
  | nil => cases h
  | cons c s =>
    rw [quoted_cons] at h
    rcases quotedChar_cases hquote c with ⟨hc, hdirect⟩ | ⟨x, hc, hx⟩
    · rw [hc] at h
      exact absurd (List.cons.inj h).1 hdirect.2.1
    · rw [hc] at h
      exact ⟨c, x, s, rfl, hx, (List.cons.inj h).2.symm⟩

/-! ## 2. Values -/

/-- Parts with the text of a quoted string stand for that string, and are read as it. -/
theorem SpellsAll.value_of_quoted {parts : List Tree} {us : List Nat} (h : SpellsAll quote parts us)
    {s : List Char} (htext : quoted quote s = textOf parts) :
    parts.flatMap stringPart = s ∧ us = units s := by
  -- along the parts: each takes the characters that it stands for off the start of the string
  induction h generalizing s with
  | nil =>
    cases s with
    | nil => exact ⟨rfl, rfl⟩
    | cons c s =>
      rw [quoted_cons] at htext
      exact absurd (List.append_eq_nil_iff.mp htext).1 (quotedChar_ne_nil hquote c)
  | @cons part parts us vs hpart _ ih =>
    rw [List.flatMap_cons]
    cases hpart with
    | @fragment w hw =>
      obtain ⟨s', rfl, hs'⟩ := eq_append_of_quoted_eq hquote (fun c hc => (hw c hc).2.1) htext
      obtain ⟨hvalue, rfl⟩ := ih hs'
      have hreturn : '\r' ∉ w.toList := by
        intro hmem
        have hne : quote ≠ '\x60' := ne_of_mem_of_not_mem hquote (by decide)
        exact ((hw _ hmem).2.2 hne).2 rfl
      rw [hvalue, units_append, (units_lineFeeds w.toList).2.mpr hreturn]
      exact ⟨rfl, rfl⟩
    | @escape w e us hw he =>
      have htext' : quoted quote s = '\\' :: (e ++ textOf parts) :=
        htext.trans (congrArg (· ++ textOf parts) hw)
      -- the part ends where the escape of the first character does
      obtain ⟨c, x, s', rfl, hx, hrest⟩ := eq_cons_of_quoted_eq hquote htext'
      obtain ⟨rfl, hparts⟩ := he.eq_singleton hx.short hrest
      obtain ⟨hvalue, rfl⟩ := ih hparts.symm
      have hread : stringPart (leaf .escapeSequence w) = [c] := (congrArg unescape hw).trans hx.read
      have hunits : us = units [c] := by rw [← he.units_unescape.2.mpr hx.known, hx.read]
      rw [hvalue, hread, hunits, ← units_append]
      exact ⟨rfl, rfl⟩

/-- A literal with the text of a quoted string between its quotes has that string as its value,
wherever the text is cut between its escapes. -/
theorem stringValue?_of_quoted {parts : List Tree} {us : List Nat} (h : SpellsAll quote parts us)
    {s : String} (htext : textOf parts = quoted quote s.toList) (label : Option Label)
    (text : String) :
    (node .string label text (delimiter quote :: parts ++ [delimiter quote])).stringValue? =
      some s := by
  have hvalue : parts.flatMap stringPart = s.toList := (h.value_of_quoted hquote htext.symm).1
  rw [stringValue?_quoted, hvalue, String.ofList_toList]

end Written

/-- Escapes side by side, a backslash before a letter and a text in two parts. -/
theorem stringValue?_of_quoted_mark :
    let parts := [leaf .stringFragment "i", leaf .stringFragment "t", leaf .escapeSequence "\\'",
      leaf .escapeSequence "\\\\", leaf .stringFragment "n", leaf .escapeSequence "\\n",
      leaf .escapeSequence "\\\\"]
    SpellsAll '\x27' parts (units "it'\\n\n\\".toList) ∧
      textOf parts = quoted '\x27' "it'\\n\n\\".toList ∧
      (literal '\x27' none parts).stringValue? = some "it'\\n\n\\" := by
  intro parts
  have i : Spells '\x27' (leaf .stringFragment "i") [0x69] :=
    .fragment_of_eq (by decide) (by decide)
  have t : Spells '\x27' (leaf .stringFragment "t") [0x74] :=
    .fragment_of_eq (by decide) (by decide)
  have n : Spells '\x27' (leaf .stringFragment "n") [0x6e] :=
    .fragment_of_eq (by decide) (by decide)
  have mark : Spells '\x27' (leaf .escapeSequence "\\'") [0x27] :=
    .escape (e := ['\x27']) rfl (.itself (by decide))
  have slash : Spells '\x27' (leaf .escapeSequence "\\\\") [0x5c] :=
    .escape (e := ['\\']) rfl (.itself (by decide))
  have feed : Spells '\x27' (leaf .escapeSequence "\\n") [0x0a] :=
    .escape (e := ['n']) rfl (.named (by decide))
  have hparts : SpellsAll '\x27' parts (units "it'\\n\n\\".toList) :=
    .cons i (.cons t (.cons mark (.cons slash (.cons n (.cons feed (.cons slash .nil))))))
  have htext : textOf parts = quoted '\x27' "it'\\n\n\\".toList := by decide
  exact ⟨hparts, htext, stringValue?_of_quoted (by decide) hparts htext none _⟩

/-! ## 3. Quoted strings in a source text -/

theorem quoted_append (quote : Char) (s t : List Char) :
    quoted quote (s ++ t) = quoted quote s ++ quoted quote t := List.flatMap_append

theorem textOf_leaf_cons (kind : Kind) (s : List Char) (parts : List Tree) :
    textOf (leaf kind (String.ofList s) :: parts) = s ++ textOf parts :=
  congrArg (· ++ textOf parts) String.toList_ofList

theorem readEscape_of_short {x : Char} (hx : x ∉ longStarts) (t : List Char) :
    readEscape ('\\' :: x :: t) = some (['\\', x], t) := by
  have hall : ∀ y ∈ longStarts, x ≠ y := fun y hy hxy => hx (hxy ▸ hy)
  have hbrace : x ≠ 'u' := hall 'u' (by decide)
  have hbyte : x ≠ 'x' := hall 'x' (by decide)
  have hreturn : x ≠ '\r' := hall '\r' (by decide)
  have hdigit : ¬ ('0' ≤ x ∧ x ≤ '7') := by
    rintro ⟨hlow, hhigh⟩
    have hlow' : 48 ≤ x.toNat := hlow
    have hhigh' : x.toNat ≤ 55 := hhigh
    have hdigits : ∀ n : Fin 8, Char.ofNat (48 + n) ∈ longStarts := by decide
    have hx' : Char.ofNat (48 + (x.toNat - 48)) = x := by
      rw [Nat.add_sub_cancel' hlow', Char.ofNat_toNat]
    exact hx (hx' ▸ hdigits ⟨x.toNat - 48, by omega⟩)
  simp [readEscape, hbrace, hbyte, hreturn, hdigit]

section Read

variable {quote : Char} (hquote : quote ∈ ['\x27', '\x22']) {fuel : Nat} {t rest : List Char}
  {parts : List Tree} (h : readQuoted quote fuel t = some (parts, rest))

include hquote h

theorem readQuoted_short {x : Char} (hx : x ∉ longStarts) :
    readQuoted quote (fuel + 1) ('\\' :: x :: t) =
      some (.leaf .escapeSequence (String.ofList ['\\', x]) :: parts, rest) := by
  have hne : '\\' ≠ quote := (ne_of_mem_of_not_mem hquote (by decide)).symm
  have hpart : QuotedPart quote ('\\' :: x :: t) _ t := .escape hne (readEscape_of_short hx t)
  exact readQuoted_succ_iff.mpr (.inr ⟨_, parts, t, hpart, h, rfl⟩)

theorem readQuoted_direct {w : List Char} (hnil : w ≠ []) (hw : ∀ c ∈ w, IsDirect quote c)
    (ht : ∀ c ∈ t.head?, ¬ IsDirect quote c) :
    readQuoted quote (fuel + 1) (w ++ t) =
      some (.leaf .stringFragment (String.ofList w) :: parts, rest) := by
  have hne : quote ≠ '\x60' := ne_of_mem_of_not_mem hquote (by decide)
  have hdirect (c : Char) :
      (c != quote && c != '\\' && c != '\r' && c != '\n') = decide (IsDirect quote c) := by
    rw [Bool.eq_iff_iff, decide_eq_true_iff]
    simp only [Bool.and_eq_true, bne_iff_ne, IsDirect]
    exact ⟨fun ⟨⟨⟨hc, hslash⟩, hreturn⟩, hfeed⟩ => ⟨hc, hslash, fun _ => ⟨hfeed, hreturn⟩⟩,
      fun ⟨hc, hslash, hline⟩ => ⟨⟨⟨hc, hslash⟩, (hline hne).2⟩, (hline hne).1⟩⟩
  have hspan :
      (w ++ t).span (fun d => d != quote && d != '\\' && d != '\r' && d != '\n') = (w, t) :=
    span_append (fun c hc => (hdirect c).trans (decide_eq_true (hw c hc)))
      (fun c hc => (hdirect c).trans (decide_eq_false (ht c hc)))
  cases w with
  | nil => exact absurd rfl hnil
  | cons c w =>
    obtain ⟨hcquote, hcslash, -⟩ := hw c List.mem_cons_self
    have hpart : QuotedPart quote (c :: w ++ t) _ t := .fragment hcquote hcslash hspan hnil
    exact readQuoted_succ_iff.mpr (.inr ⟨_, parts, t, hpart, h, rfl⟩)

end Read

section Source

variable {quote : Char} (hquote : quote ∈ ['\x27', '\x22'])

include hquote

/-- A string starts with characters that are written as they are, up to its end or an escape. -/
theorem exists_direct_prefix (s : List Char) :
    ∃ w t, s = w ++ t ∧ quoted quote w = w ∧ (∀ c ∈ w, IsDirect quote c) ∧
      ∀ rest, ∀ c ∈ (quoted quote t ++ quote :: rest).head?, ¬ IsDirect quote c := by
  induction s with
  | nil =>
    refine ⟨[], [], rfl, rfl, nofun, ?_⟩
    rintro rest c ⟨⟩ hdirect
    exact hdirect.1 rfl
  | cons c s ih =>
    rcases quotedChar_cases hquote c with ⟨hc, hdirect⟩ | ⟨x, hc, -⟩
    · obtain ⟨w, t, rfl, hw, hwdirect, ht⟩ := ih
      refine ⟨c :: w, t, rfl, ?_, List.forall_mem_cons.mpr ⟨hdirect, hwdirect⟩, ht⟩
      rw [quoted_cons, hc, hw]
      rfl
    · refine ⟨[], c :: s, rfl, rfl, nofun, ?_⟩
      rw [quoted_cons, hc]
      rintro rest d ⟨⟩ hdirect
      exact hdirect.2.1 rfl

/-- A quoted string is read up to its closing quote, whatever follows. -/
theorem readQuoted_quoted {fuel : Nat} {s : List Char} (hfuel : s.length < fuel)
    (rest : List Char) :
    ∃ parts us, readQuoted quote fuel (quoted quote s ++ quote :: rest) =
      some (parts ++ [delimiter quote], rest) ∧ SpellsAll quote parts us ∧
        textOf parts = quoted quote s := by
  -- every round takes at least one character of the string
  induction fuel generalizing s with
  | zero => exact absurd hfuel (Nat.not_lt_zero _)
  | succ fuel ih =>
    cases s with
    | nil => exact ⟨[], [], if_pos rfl, .nil, rfl⟩
    | cons c s =>
      rw [List.length_cons] at hfuel
      rcases quotedChar_cases hquote c with ⟨hc, hdirect⟩ | ⟨x, hc, hx⟩
      · obtain ⟨w, t, rfl, hw, hwdirect, ht⟩ := exists_direct_prefix hquote s
        rw [List.length_append] at hfuel
        obtain ⟨parts, us, hread, hparts, htext⟩ := ih (s := t) (by omega)
        have hdirects := List.forall_mem_cons.mpr ⟨hdirect, hwdirect⟩
        have hwhole : quoted quote (c :: (w ++ t)) = (c :: w) ++ quoted quote t := by
          rw [quoted_cons, hc, quoted_append, hw]
          rfl
        have hfragment := readQuoted_direct hquote hread (List.cons_ne_nil c w) hdirects
          (ht rest)
        refine ⟨leaf .stringFragment (String.ofList (c :: w)) :: parts, _, ?_,
          .cons (.fragment (by rwa [String.toList_ofList])) hparts, ?_⟩
        · rw [hwhole, List.append_assoc, hfragment]
          rfl
        · rw [textOf_leaf_cons, htext, hwhole]
      · obtain ⟨parts, us, hread, hparts, htext⟩ := ih (s := s) (by omega)
        have hescape := readQuoted_short hquote hread hx.short
        refine ⟨leaf .escapeSequence (String.ofList ['\\', x]) :: parts, _, ?_,
          .cons (.escape String.toList_ofList hx.spells) hparts, ?_⟩
        · rw [quoted_cons, hc]
          exact hescape
        · rw [textOf_leaf_cons, htext, quoted_cons, hc]

/-- A string in quotes is read as a literal with that string as its value, whatever follows. -/
theorem readString_quoted {size : Nat} {s : List Char} (hsize : s.length < size)
    (rest : List Char) :
    ∃ parts, readString size (quote :: quoted quote s ++ quote :: rest) = some (parts, rest) ∧
      ∀ label text, (node .string label text parts).stringValue? = some (String.ofList s) := by
  obtain ⟨parts, us, hread, hparts, htext⟩ := readQuoted_quoted hquote hsize rest
  have hstart : (quote == '\x22' || quote == '\x27') = true := by
    have hall : ∀ q ∈ ['\x27', '\x22'], (q == '\x22' || q == '\x27') = true := by decide
    exact hall quote hquote
  refine ⟨delimiter quote :: parts ++ [delimiter quote], ?_, fun label text => ?_⟩
  · exact readString_eq_some_iff.mpr ⟨quote, _, _, hstart, rfl, hread, rfl⟩
  · rw [stringValue?_quoted, (hparts.value_of_quoted hquote htext.symm).1]

end Source

end Tree

/-! ## 4. Literals in parsed trees -/

theorem readEscape_append {s e t : List Char} (h : readEscape s = some (e, t)) : s = e ++ t := by
  unfold readEscape at h
  split at h
  next r =>
    dsimp only at h
    split at h
    next d ds t' hdigits hclose =>
      have hr : r = (r.span isHexDigit).1 ++ (r.span isHexDigit).2 := append_of_span rfl
      obtain ⟨rfl, rfl⟩ := Prod.mk.inj (Option.some.inj h)
      rw [hclose] at hr
      rw [List.append_assoc, List.singleton_append]
      exact congrArg (['\\', 'u', '\x7b'] ++ ·) hr
    next => exact nomatch h
  next a b c d r _ =>
    split at h
    next =>
      obtain ⟨rfl, rfl⟩ := Prod.mk.inj (Option.some.inj h)
      rfl
    next => exact nomatch h
  next a b r =>
    split at h
    next =>
      obtain ⟨rfl, rfl⟩ := Prod.mk.inj (Option.some.inj h)
      rfl
    next => exact nomatch h
  next r =>
    obtain ⟨rfl, rfl⟩ := Prod.mk.inj (Option.some.inj h)
    rfl
  next c r _ _ _ _ =>
    split at h
    next => exact nomatch h
    next =>
      split at h
      next =>
        -- up to three digits at the start of what follows
        have hspan := append_of_span
          (rfl : (c :: r).span (fun d => '0' ≤ d && d ≤ '7') = (_, _))
        have hdigits := (List.take_prefix 3 _).trans ⟨_, hspan.symm⟩
        obtain ⟨rfl, rfl⟩ := Prod.mk.inj (Option.some.inj h)
        exact congrArg ('\\' :: ·) (List.prefix_iff_eq_append.mp hdigits).symm
      next =>
        obtain ⟨rfl, rfl⟩ := Prod.mk.inj (Option.some.inj h)
        rfl
  next => exact nomatch h

theorem QuotedPart.append {quote : Char} {s r : List Char} {part : Tree}
    (h : QuotedPart quote s part r) : s = part.text.toList ++ r := by
  cases h with
  | escape _ read =>
    exact (readEscape_append read).trans (congrArg (· ++ r) String.toList_ofList.symm)
  | fragment _ _ read _ =>
    exact (append_of_span read).trans (congrArg (· ++ r) String.toList_ofList.symm)

theorem textOf_delimiter_cons (quote : Char) (parts : List Tree) :
    Tree.textOf (.leaf .token (String.singleton quote) :: parts) = quote :: Tree.textOf parts :=
  congrArg (· ++ Tree.textOf parts) (String.toList_singleton quote)

theorem readQuoted_append {quote : Char} {fuel : Nat} {s t : List Char} {parts : List Tree}
    (h : readQuoted quote fuel s = some (parts, t)) : s = Tree.textOf parts ++ t := by
  induction fuel generalizing s parts with
  | zero => exact nomatch h
  | succ fuel ih =>
    rcases readQuoted_succ_iff.mp h with ⟨rfl, rfl⟩ | ⟨part, rest, r, hpart, hrest, rfl⟩
    · rw [textOf_delimiter_cons]
      rfl
    · rw [hpart.append, ih hrest, ← List.append_assoc]
      rfl

theorem readString_append {size : Nat} {s t : List Char} {parts : List Tree}
    (h : readString size s = some (parts, t)) : s = Tree.textOf parts ++ t := by
  obtain ⟨quote, r, rest, -, rfl, hrest, rfl⟩ := readString_eq_some_iff.mp h
  rw [readQuoted_append hrest, textOf_delimiter_cons]
  rfl

/-- More rounds read no less. -/
theorem readQuoted_mono {quote : Char} {fuel more : Nat} (hmore : fuel ≤ more) {s t : List Char}
    {parts : List Tree} (h : readQuoted quote fuel s = some (parts, t)) :
    readQuoted quote more s = some (parts, t) := by
  induction fuel generalizing more s parts with
  | zero => exact nomatch h
  | succ fuel ih =>
    obtain ⟨more, rfl⟩ := Nat.exists_eq_succ_of_ne_zero (Nat.ne_zero_of_lt hmore)
    rcases readQuoted_succ_iff.mp h with hclosing | ⟨part, rest, r, hpart, hrest, rfl⟩
    · exact readQuoted_succ_iff.mpr (.inl hclosing)
    · have hrest' := ih (Nat.le_of_succ_le_succ hmore) hrest
      exact readQuoted_succ_iff.mpr (.inr ⟨part, rest, r, hpart, hrest', rfl⟩)

theorem readString_mono {size more : Nat} (hmore : size ≤ more) {s t : List Char}
    {parts : List Tree} (h : readString size s = some (parts, t)) :
    readString more s = some (parts, t) := by
  obtain ⟨quote, r, rest, hstart, rfl, hrest, rfl⟩ := readString_eq_some_iff.mp h
  exact readString_eq_some_iff.mpr
    ⟨quote, r, rest, hstart, rfl, readQuoted_mono hmore hrest, rfl⟩

namespace Tree

/-- In the tree of a source text without markup, a literal has the value that it is written for. -/
theorem stringValue?_of_parseUnit {source : String} {c : Cursor}
    (hc : c ∈ (parseUnit .typeScript source).walk) (hkind : c.focus.kind = .string) {quote : Char}
    (hquote : quote ∈ ['\x27', '\x22']) {s : String}
    (htext : textOf c.focus.children = quote :: quoted quote s.toList ++ [quote]) :
    c.focus.stringValue? = some s := by
  obtain ⟨size, text, rest, hread⟩ := strings_of_parseUnit source c hc hkind
  obtain ⟨⟨k, l, t, parts⟩, before, after, above⟩ := c
  obtain rfl : k = .string := hkind
  -- what was read is the string in quotes, which is read the same in enough rounds
  have hsize : s.toList.length < max size (s.toList.length + 1) :=
    Nat.lt_of_lt_of_le (Nat.lt_succ_self _) (Nat.le_max_right _ _)
  obtain ⟨parts', hquoted, hvalue⟩ := readString_quoted hquote hsize rest
  have hmore := readString_mono (Nat.le_max_left size (s.toList.length + 1)) hread
  have hsame : text = quote :: quoted quote s.toList ++ quote :: rest := by
    rw [readString_append hread, htext, List.append_assoc]
    rfl
  rw [hsame, hquoted] at hmore
  obtain ⟨rfl, -⟩ := Prod.mk.inj (Option.some.inj hmore)
  rw [hvalue, String.ofList_toList]

end Tree
end MarkupCatalog

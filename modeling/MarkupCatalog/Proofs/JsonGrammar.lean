import MarkupCatalog.Proofs.Attempts
import MarkupCatalog.Proofs.JsonSpellings

/-!
# JSON texts of any kind

The grammar of JSON texts, whatever they mean: numbers may have any size, and the escapes of a
string may name halves of pairs.  A reader need not accept a value, but where it does, it has read
the whole value and nothing behind it.  So the reader of a record that refuses unknown names never
takes a part of one member for another.
-/

namespace MarkupCatalog.Json

/-! ## 1. Texts of values -/

/-- A character of a string as it is, or an escape.  Its code may be that of half of a pair. -/
inductive IsPiece : List Char → Prop
  | plain {c : Char} (hquote : c ≠ '"') (hslash : c ≠ '\\') (hcontrol : ¬ c < ' ') : IsPiece [c]
  | letter {e c : Char} (h : (e, c) ∈ letterEscapes) : IsPiece ['\\', e]
  | code {n : Nat} {code : List Char} (h : SpellsCode n code) : IsPiece ('\\' :: 'u' :: code)

/-- A string behind its opening quote. -/
inductive IsBody : List Char → Prop
  | close : IsBody ['"']
  | cons {piece body : List Char} (hpiece : IsPiece piece) (hbody : IsBody body) :
      IsBody (piece ++ body)

def IsDigits (s : List Char) : Prop := s ≠ [] ∧ ∀ c ∈ s, isDigit c = true

/-- The digits before the point: no zero stands in front of others. -/
inductive IsWhole : List Char → Prop
  | zero : IsWhole ['0']
  | digits {c : Char} {s : List Char} (hc : c ≠ '0') (h : IsDigits (c :: s)) : IsWhole (c :: s)

inductive IsFraction : List Char → Prop
  | none : IsFraction []
  | digits {s : List Char} (h : IsDigits s) : IsFraction ('.' :: s)

inductive IsExponent : List Char → Prop
  | none : IsExponent []
  | digits {e : Char} {sign s : List Char} (he : e = 'e' ∨ e = 'E')
      (hsign : sign = [] ∨ sign = ['+'] ∨ sign = ['-']) (h : IsDigits s) :
      IsExponent (e :: (sign ++ s))

inductive IsNumber : List Char → Prop
  | positive {whole fraction exponent : List Char} (hwhole : IsWhole whole)
      (hfraction : IsFraction fraction) (hexponent : IsExponent exponent) :
      IsNumber (whole ++ (fraction ++ exponent))
  | negative {whole fraction exponent : List Char} (hwhole : IsWhole whole)
      (hfraction : IsFraction fraction) (hexponent : IsExponent exponent) :
      IsNumber ('-' :: (whole ++ (fraction ++ exponent)))

mutual

inductive IsValue : List Char → Prop
  | null : IsValue "null".toList
  | trueWord : IsValue "true".toList
  | falseWord : IsValue "false".toList
  | number {text : List Char} (h : IsNumber text) : IsValue text
  | string {body : List Char} (h : IsBody body) : IsValue ('"' :: body)
  | list {items : List (List Char)} {body : List Char} (h : SpellsItems ']' IsItem items body) :
      IsValue ('[' :: body)
  | object {ms : List (List Char × List Char)} {body : List Char}
      (h : SpellsItems '\x7d' IsMember ms body) : IsValue ('\x7b' :: body)

/-- An item of a list, which is given by its text. -/
inductive IsItem : List Char → List Char → Prop
  | mk {text : List Char} (h : IsValue text) : IsItem text text

/-- A member of an object, which is given by its name behind the opening quote and the text of its
value. -/
inductive IsMember : List Char × List Char → List Char → Prop
  | mk {name space lead text : List Char} (hname : IsBody name) (hspace : Space space)
      (hlead : Space lead) (h : IsValue text) :
      IsMember (name, text) ('"' :: (name ++ (space ++ ':' :: (lead ++ text))))

end

/-- The text is an object with these members. -/
def IsObject (ms : List (List Char × List Char)) (text : String) : Prop :=
  ∃ lead body space, Space lead ∧ Space space ∧ SpellsItems '\x7d' IsMember ms body ∧
    text = String.ofList (lead ++ ('\x7b' :: body ++ space))

/-! ## 2. First characters -/

theorem IsNumber.opens {text : List Char} (h : IsNumber text) :
    ∃ c r, text = c :: r ∧ (c = '-' ∨ isDigit c = true) := by
  cases h with
  | positive hwhole =>
    cases hwhole with
    | zero => exact ⟨'0', _, rfl, .inr rfl⟩
    | digits hc h => exact ⟨_, _, rfl, .inr (h.2 _ List.mem_cons_self)⟩
  | negative => exact ⟨'-', _, rfl, .inl rfl⟩

theorem IsNumber.head_ne {text rest r : List Char} {c : Char} (h : IsNumber text)
    (htext : text ++ rest = c :: r) (hsign : c ≠ '-') (hdigit : isDigit c = false) : False := by
  obtain ⟨d, t, rfl, hd⟩ := h.opens
  obtain ⟨rfl, -⟩ := List.cons.inj htext
  rcases hd with hd | hd
  · exact hsign hd
  · rw [hdigit] at hd
    cases hd

section Head

variable {text rest r : List Char} (h : IsValue text)

include h

theorem IsValue.opens : Opens text := by
  cases h with
  | number h =>
    obtain ⟨c, r, rfl, hc⟩ := h.opens
    refine ⟨c, r, rfl, ?_, ?_⟩
    · rw [Bool.eq_false_iff]
      intro hspace
      rcases isSpace_iff.mp hspace with rfl | rfl | rfl | rfl <;> exact absurd hc (by decide)
    · rintro rfl
      exact absurd hc (by decide)
  | null => exact ⟨'n', _, rfl, rfl, by decide⟩
  | trueWord => exact ⟨'t', _, rfl, rfl, by decide⟩
  | falseWord => exact ⟨'f', _, rfl, rfl, by decide⟩
  | string => exact ⟨'"', _, rfl, rfl, by decide⟩
  | list => exact ⟨'[', _, rfl, rfl, by decide⟩
  | object => exact ⟨'\x7b', _, rfl, rfl, by decide⟩

theorem IsValue.of_null_head (htext : text ++ rest = 'n' :: r) : r = "ull".toList ++ rest := by
  cases h with
  | null => exact (List.cons.inj htext).2.symm
  | number h => exact (h.head_ne htext (by decide) rfl).elim
  | _ => exact absurd (List.cons.inj htext).1 (by decide)

theorem IsValue.of_quote_head (htext : text ++ rest = '"' :: r) :
    ∃ body, IsBody body ∧ r = body ++ rest := by
  cases h with
  | string h => exact ⟨_, h, (List.cons.inj htext).2.symm⟩
  | number h => exact (h.head_ne htext (by decide) rfl).elim
  | _ => exact absurd (List.cons.inj htext).1 (by decide)

theorem IsValue.of_bracket_head (htext : text ++ rest = '[' :: r) :
    ∃ items body, SpellsItems ']' IsItem items body ∧ r = body ++ rest := by
  cases h with
  | list h => exact ⟨_, _, h, (List.cons.inj htext).2.symm⟩
  | number h => exact (h.head_ne htext (by decide) rfl).elim
  | _ => exact absurd (List.cons.inj htext).1 (by decide)

theorem IsValue.of_brace_head (htext : text ++ rest = '\x7b' :: r) :
    ∃ ms body, SpellsItems '\x7d' IsMember ms body ∧ r = body ++ rest := by
  cases h with
  | object h => exact ⟨_, _, h, (List.cons.inj htext).2.symm⟩
  | number h => exact (h.head_ne htext (by decide) rfl).elim
  | _ => exact absurd (List.cons.inj htext).1 (by decide)

end Head

theorem IsMember.opens {m : List Char × List Char} {text : List Char} (h : IsMember m text) :
    ∃ r, text = '"' :: r := by
  cases h
  exact ⟨_, rfl⟩

/-! ## 3. Strings -/

theorem word_eq_ok_iff {w s r : List Char} : word w s = .ok r ↔ s = w ++ r := by
  induction w generalizing s with
  | nil => simp [word]
  | cons c w ih =>
    cases s with
    | nil => simp [word]
    | cons d s =>
      rw [word, List.cons_append, List.cons.injEq]
      split_ifs with hd
      · simp [hd, ih]
      · simp [hd]

theorem pairMark_eq_ok_iff {w s r : List Char} : pairMark w s = .ok r ↔ s = w ++ r := by
  induction w generalizing s with
  | nil => simp [pairMark]
  | cons c w ih =>
    cases s with
    | nil => simp [pairMark]
    | cons d s =>
      rw [pairMark, List.cons_append, List.cons.injEq]
      split_ifs with hd
      · simp [hd, ih]
      · simp [hd]

theorem SpellsCode.lt {n : Nat} {code : List Char} (h : SpellsCode n code) : n < 0x10000 := by
  have hdigit {d : Nat} {c : Char} (h : SpellsDigit d c) : d < 16 := by cases h <;> assumption
  cases h with
  | digits ha hb hc hd =>
    have := hdigit ha
    have := hdigit hb
    have := hdigit hc
    have := hdigit hd
    omega

theorem toNat_ofNat {n : Nat} (h : n < 0xd800 ∨ 0xdfff < n ∧ n < 0x110000) :
    (Char.ofNat n).toNat = n := by
  rw [Char.ofNat, dif_pos h]
  rfl

theorem isBody_of_spells {s : String} {body : List Char} (h : SpellsBody s body) : IsBody body := by
  obtain ⟨pieces, hpieces, rfl⟩ := h
  generalize s.toList = cs at hpieces
  induction hpieces with
  | nil => exact .close
  | cons hc _ ih =>
    rw [List.flatten_cons, List.append_assoc]
    cases hc with
    | plain hquote hslash hcontrol => exact .cons (.plain hquote hslash hcontrol) ih
    | letter h => exact .cons (.letter h) ih
    | code h => exact .cons (.code h) ih
    | pair _ hhigh hlow =>
      have hboth := IsBody.cons (.code hhigh) (.cons (.code hlow) ih)
      simpa using hboth

/-- Behind the mark of an escape in a string there stands its code. -/
theorem IsBody.of_mark {body rest s : List Char} (h : IsBody body)
    (hmark : body ++ rest = '\\' :: 'u' :: s) :
    ∃ n code body', SpellsCode n code ∧ IsBody body' ∧ body = '\\' :: 'u' :: (code ++ body') ∧
      s = code ++ (body' ++ rest) := by
  cases h with
  | close => exact absurd (List.cons.inj hmark).1 (by decide)
  | cons hpiece hbody =>
    cases hpiece with
    | plain hquote hslash => exact absurd (List.cons.inj hmark).1 hslash
    | @letter e c h =>
      have hletters : ∀ p ∈ letterEscapes, p.1 ≠ 'u' := by decide
      exact absurd (List.cons.inj (List.cons.inj hmark).2).1 (hletters _ h)
    | code h =>
      have hs := (List.cons.inj (List.cons.inj hmark).2).2
      exact ⟨_, _, _, h, hbody, rfl, hs.symm.trans (List.append_assoc _ _ _)⟩

/-- The code of an escape is read together with that of the second half, where it names the first
half of a pair. -/
theorem unicode_of_isBody {n : Nat} {code body rest r : List Char} {c : Char}
    (hcode : SpellsCode n code) (hbody : IsBody body)
    (hread : unicode (code ++ (body ++ rest)) = .ok (c, r)) :
    ∃ more body', SpellsChar c ('\\' :: 'u' :: (code ++ more)) ∧ IsBody body' ∧
      body = more ++ body' ∧ r = body' ++ rest := by
  have hbound := hcode.lt
  unfold unicode at hread
  rw [hcode.hex4] at hread
  change (if _ then _ else if _ then _ else _) = _ at hread
  split_ifs at hread with hscalar hlow
  · cases hread
    have hvalue : (Char.ofNat n).toNat = n := toNat_ofNat (by omega)
    refine ⟨[], body, ?_, hbody, rfl, rfl⟩
    rw [List.append_nil]
    exact .code (by rwa [hvalue])
  · obtain ⟨s, hmark, hread⟩ := bind_eq_ok hread
    obtain ⟨m, code', body', hcode', hbody', rfl, rfl⟩ :=
      hbody.of_mark (pairMark_eq_ok_iff.mp hmark)
    rw [hcode'.hex4] at hread
    change (if _ then _ else _) = _ at hread
    split_ifs at hread with hhalf
    obtain ⟨rfl, rfl⟩ := Prod.mk.inj (Except.ok.inj hread)
    -- each half names ten bits of the character
    have hvalue := toNat_ofNat (n := 0x10000 + 1024 * (n - 0xd800) + (m - 0xdc00)) (by omega)
    refine ⟨'\\' :: 'u' :: code', body', ?_, hbody', rfl, rfl⟩
    refine .pair (n := 1024 * (n - 0xd800) + (m - 0xdc00)) (by omega) ?_ ?_
    · rwa [show 0xd800 + (1024 * (n - 0xd800) + (m - 0xdc00)) / 1024 = n by omega]
    · rwa [show 0xdc00 + (1024 * (n - 0xd800) + (m - 0xdc00)) % 1024 = m by omega]

/-- Of a string one character is read, or its end. -/
theorem stringChar_of_isBody {body rest r : List Char} {x : Option Char} (h : IsBody body)
    (hread : stringChar (body ++ rest) = .ok (x, r)) :
    (x = none ∧ body = ['"'] ∧ r = rest) ∨
      ∃ c piece body', x = some c ∧ SpellsChar c piece ∧ IsBody body' ∧ body = piece ++ body' ∧
        r = body' ++ rest := by
  cases h with
  | close =>
    cases hread
    exact .inl ⟨rfl, rfl, rfl⟩
  | @cons piece body hpiece hbody =>
    right
    rw [List.append_assoc] at hread
    cases hpiece with
    | plain hquote hslash hcontrol =>
      have hspells := SpellsChar.plain hquote hslash hcontrol
      rw [stringChar_of_spells hspells] at hread
      cases hread
      exact ⟨_, _, body, rfl, hspells, hbody, rfl, rfl⟩
    | letter h =>
      have hspells := SpellsChar.letter h
      rw [stringChar_of_spells hspells] at hread
      cases hread
      exact ⟨_, _, body, rfl, hspells, hbody, rfl, rfl⟩
    | code h =>
      obtain ⟨⟨c, s⟩, hunicode, heq⟩ := map_eq_ok hread
      cases heq
      obtain ⟨more, body', hspells, hbody', rfl, rfl⟩ := unicode_of_isBody h hbody hunicode
      refine ⟨c, _, body', rfl, hspells, hbody', ?_, rfl⟩
      simp

theorem stringChars_of_isBody {fuel : Nat} {body rest r cs : List Char} (h : IsBody body)
    (hread : stringChars fuel (body ++ rest) = .ok (cs, r)) :
    r = rest ∧ ∃ pieces, List.Forall₂ SpellsChar cs pieces ∧ body = pieces.flatten ++ ['"'] := by
  induction fuel generalizing body cs with
  | zero => cases hread
  | succ fuel ih =>
    rw [stringChars] at hread
    split at hread
    next => cases hread
    next s hchar =>
      cases hread
      rcases stringChar_of_isBody h hchar with ⟨-, rfl, rfl⟩ | ⟨c, piece, body', hx, -⟩
      · exact ⟨rfl, [], .nil, rfl⟩
      · cases hx
    next c s hchar =>
      obtain ⟨⟨cs', r'⟩, hrest, heq⟩ := map_eq_ok hread
      cases heq
      rcases stringChar_of_isBody h hchar with ⟨hx, -⟩ | ⟨d, piece, body', hx, hc, hbody', rfl, rfl⟩
      · cases hx
      · cases hx
        obtain ⟨hr, pieces, hpieces, rfl⟩ := ih hbody' hrest
        refine ⟨hr, piece :: pieces, .cons hc hpieces, ?_⟩
        rw [List.flatten_cons, List.append_assoc]

/-- A string that is read ends at its closing quote, and its text is a spelling of what is read. -/
theorem IsBody.of_string {body rest r : List Char} {s : String} (h : IsBody body)
    (hread : string (body ++ rest) = .ok (s, r)) : SpellsBody s body ∧ r = rest := by
  obtain ⟨⟨cs, r'⟩, hchars, heq⟩ := map_eq_ok hread
  cases heq
  obtain ⟨rfl, pieces, hpieces, rfl⟩ := stringChars_of_isBody h hchars
  refine ⟨⟨pieces, ?_, rfl⟩, rfl⟩
  rwa [String.toList_ofList]

/-! ## 4. Readers -/

/-- Where the reader accepts a value, it has read the whole value and nothing else. -/
def Keeps (reader : Reader α) : Prop :=
  ∀ ⦃text⦄, IsValue text → ∀ ⦃s rest r v⦄, skip s = text ++ rest → reader s = .ok (v, r) → r = rest

theorem stringAs_eq_ok {expected v : String} {s r : List Char}
    (h : stringAs expected s = .ok (v, r)) : ∃ t, skip s = '"' :: t ∧ string t = .ok (v, r) := by
  unfold stringAs at h
  split at h
  next t heq => exact ⟨t, heq, h⟩
  next => cases h

theorem keeps_stringAs (expected : String) : Keeps (stringAs expected) := by
  intro text htext s rest r v hskip hread
  obtain ⟨t, hquote, hstring⟩ := stringAs_eq_ok hread
  obtain ⟨body, hbody, rfl⟩ := htext.of_quote_head (hskip.symm.trans hquote)
  exact (hbody.of_string hstring).2

theorem rest_of_null {text s t rest r : List Char} (htext : IsValue text)
    (hskip : skip s = text ++ rest) (hnull : skip s = 'n' :: t)
    (hword : word "ull".toList t = .ok r) : r = rest := by
  rw [htext.of_null_head (hskip.symm.trans hnull), word_eq_ok_iff] at hword
  exact (List.append_cancel_left hword).symm

theorem keeps_optional {item : Reader α} (h : Keeps item) : Keeps (optional item) := by
  intro text htext s rest r v hskip hread
  unfold optional at hread
  split at hread
  next t heq =>
    obtain ⟨r', hword, hr⟩ := map_eq_ok hread
    cases hr
    exact rest_of_null htext hskip heq hword
  next =>
    obtain ⟨⟨x, r'⟩, hitem, hr⟩ := map_eq_ok hread
    rw [← (Prod.mk.inj hr).2]
    rw [hskip] at hitem
    exact h htext (Opens.skip_text htext.opens rest) hitem

/-! ## 5. Lists -/

section Lists

variable {item : Reader α}

theorem list_eq_ok {s r : List Char} {xs : List α} (h : list item s = .ok (xs, r)) :
    ∃ t, skip s = '[' :: t ∧ items item (t.length + 1) true t = .ok (xs, r) := by
  unfold list at h
  split at h
  next t heq => exact ⟨t, heq, h⟩
  next => cases h

theorem items_of_none {first : Bool} {fuel : Nat} {space rest r : List Char} {xs : List α}
    (hspace : Space space) (h : items item fuel first (space ++ [']'] ++ rest) = .ok (xs, r)) :
    r = rest := by
  cases fuel with
  | zero => cases h
  | succ fuel =>
    rw [List.append_assoc, List.singleton_append, items, nextItem_close first hspace,
      closeList_close hspace] at h
    exact (Prod.mk.inj (Except.ok.inj h)).2.symm

/-- After an item that is accepted, the list goes on behind the text of the item. -/
theorem items_of_some (hitem : Keeps item) {first : Bool} {fuel : Nat} {text s rest r : List Char}
    {xs : List α} (htext : IsValue text) (hs : nextItem first s = .ok (some (text ++ rest)))
    (h : items item (fuel + 1) first s = .ok (xs, r)) :
    ∃ ys, items item fuel false rest = .ok (ys, r) := by
  rw [items, hs] at h
  obtain ⟨⟨x, s'⟩, hx, h⟩ := bind_eq_ok h
  obtain ⟨⟨ys, r'⟩, hys, heq⟩ := map_eq_ok h
  cases heq
  obtain rfl := hitem htext (Opens.skip_text htext.opens rest) hx
  exact ⟨ys, hys⟩

theorem items_keep (hitem : Keeps item) {texts : List (List Char)} {body rest : List Char}
    (h : SpellsRest ']' IsItem texts body) {fuel : Nat} {r : List Char} {xs : List α}
    (hread : items item fuel false (body ++ rest) = .ok (xs, r)) : r = rest := by
  induction h generalizing fuel xs with
  | nil hspace => exact items_of_none hspace hread
  | cons hspace hlead hx _ ih =>
    cases hx with
    | mk hx =>
      cases fuel with
      | zero => cases hread
      | succ fuel =>
        simp only [List.cons_append, List.append_assoc] at hread
        obtain ⟨ys, hys⟩ :=
          items_of_some hitem hx (nextItem_comma hx.opens hspace hlead _) hread
        exact ih hys

theorem keeps_list (hitem : Keeps item) : Keeps (list item) := by
  intro text htext s rest r xs hskip hread
  obtain ⟨t, hbracket, hitems⟩ := list_eq_ok hread
  obtain ⟨texts, body, hbody, rfl⟩ := htext.of_bracket_head (hskip.symm.trans hbracket)
  cases hbody with
  | nil hspace => exact items_of_none hspace hitems
  | cons hlead hx hothers =>
    cases hx with
    | mk hx =>
      simp only [List.append_assoc] at hitems
      obtain ⟨ys, hys⟩ := items_of_some hitem hx (nextItem_first hx.opens hlead _) hitems
      exact items_keep hitem hothers hys

end Lists

/-! ## 6. Names from a list -/

theorem keeps_unit : Keeps unit := by
  intro text htext s rest r v hskip hread
  unfold unit at hread
  split at hread
  next t heq =>
    obtain ⟨r', hword, hr⟩ := map_eq_ok hread
    cases hr
    exact rest_of_null htext hskip heq hword
  next => cases hread

theorem named_eq_ok {choices : List (String × α)} {s r : List Char} {v : α}
    (h : named choices s = .ok (v, r)) :
    ∃ name, stringAs "variant identifier" s = .ok (name, r) := by
  obtain ⟨⟨name, r'⟩, hname, h⟩ := bind_eq_ok h
  dsimp only at h
  split at h
  next =>
    cases h
    exact ⟨name, hname⟩
  next => cases h

/-- Behind a name and null in an object there are the members that follow. -/
theorem others_of_named {choices : List (String × α)} {ms : List (List Char × List Char)}
    {body rest s₁ s₂ s₃ : List Char} {x : α} (hbody : SpellsItems '\x7d' IsMember ms body)
    (hnamed : named choices (body ++ rest) = .ok (x, s₁)) (hcolon : colon s₁ = .ok s₂)
    (hunit : unit s₂ = .ok ((), s₃)) :
    ∃ ms' others, SpellsRest '\x7d' IsMember ms' others ∧ s₃ = others ++ rest := by
  obtain ⟨name, hname⟩ := named_eq_ok hnamed
  obtain ⟨t, hquote, hstring⟩ := stringAs_eq_ok hname
  cases hbody with
  | nil hspace =>
    rw [List.append_assoc, List.singleton_append, skip_append_cons hspace rfl] at hquote
    exact absurd (List.cons.inj hquote).1 (by decide)
  | cons hlead hm hothers =>
    cases hm with
    | mk hkey hspace hlead' hvalue =>
      simp only [List.append_assoc, List.cons_append] at hquote
      rw [skip_append_cons hlead rfl] at hquote
      rw [← (List.cons.inj hquote).2] at hstring
      obtain ⟨-, rfl⟩ := hkey.of_string hstring
      rw [colon_space hspace] at hcolon
      rw [← Except.ok.inj hcolon] at hunit
      exact ⟨_, _, hothers, keeps_unit hvalue (Opens.skip_lead hvalue.opens hlead' _) hunit⟩

theorem keeps_variant (choices : List (String × α)) : Keeps (variant choices) := by
  intro text htext s rest r v hskip hread
  unfold variant at hread
  split at hread
  next => cases hread
  next t heq =>
    obtain ⟨name, hname⟩ := named_eq_ok hread
    rw [← heq, hskip] at hname
    exact keeps_stringAs _ htext (Opens.skip_text htext.opens rest) hname
  next t heq =>
    obtain ⟨ms, body, hbody, rfl⟩ := htext.of_brace_head (hskip.symm.trans heq)
    obtain ⟨⟨x, s₁⟩, hnamed, hread⟩ := bind_eq_ok hread
    obtain ⟨s₂, hcolon, hread⟩ := bind_eq_ok hread
    obtain ⟨⟨_, s₃⟩, hunit, hread⟩ := bind_eq_ok hread
    obtain ⟨ms', others, hothers, rfl⟩ := others_of_named hbody hnamed hcolon hunit
    -- behind null the object has to end
    cases hothers with
    | nil hspace =>
      rw [List.append_assoc, List.singleton_append] at hread
      dsimp only at hread
      rw [skip_append_cons hspace rfl] at hread
      exact (Prod.mk.inj (Except.ok.inj hread)).2.symm
    | cons hspace =>
      rw [List.append_assoc, List.cons_append] at hread
      dsimp only at hread
      rw [skip_append_cons hspace rfl] at hread
      cases hread
  next => cases hread

/-! ## 7. Records -/

theorem exists_name {names : List String} {bodies : List (List Char)}
    (h : List.Forall₂ SpellsBody names bodies) {body : List Char} (hbody : body ∈ bodies) :
    ∃ name ∈ names, SpellsBody name body := by
  induction h with
  | nil => cases hbody
  | cons hname _ ih =>
    cases hbody with
    | head => exact ⟨_, List.mem_cons_self, hname⟩
    | tail _ hbody =>
      obtain ⟨name, hmem, hspells⟩ := ih hbody
      exact ⟨name, List.mem_cons_of_mem _ hmem, hspells⟩

/-- Different names have no spelling in common. -/
theorem pairwise_of_nodup {names : List String} {bodies : List (List Char)}
    (h : List.Forall₂ SpellsBody names bodies) (hnodup : names.Nodup) :
    bodies.Pairwise fun b c => ∀ name, SpellsBody name b → ¬ SpellsBody name c := by
  induction h with
  | nil => exact .nil
  | cons hb hothers ih =>
    obtain ⟨hhead, hnodup⟩ := List.nodup_cons.mp hnodup
    refine .cons (fun c hc name hname hname' => ?_) (ih hnodup)
    obtain ⟨other, hother, hspells⟩ := exists_name hothers hc
    obtain rfl := hb.unique hname
    obtain rfl := hspells.unique hname'
    exact hhead hother

namespace Record

variable {record : Record δ α}

/-- A field that is read counts as set from then on, and so do those that were set before. -/
structure RegularField (record : Record δ α) (f : Field δ) : Prop where
  keeps : ∀ d, Keeps (f.read d)
  sets : ∀ {d d' s r}, f.read d s = .ok (d', r) → f.isSet d' = true
  leaves : ∀ {d d' s r}, f.read d s = .ok (d', r) →
    ∀ g ∈ record.fields, g.isSet d = true → g.isSet d' = true

/-- Unknown names are refused, and so are fields that come again. -/
structure Regular (record : Record δ α) : Prop where
  strict : record.strict = true
  fields : ∀ f ∈ record.fields, RegularField record f

/-- The names are those of different fields, which the draft has no values for. -/
structure Lacks (record : Record δ α) (d : δ) (names : List String) : Prop where
  nodup : names.Nodup
  unset : ∀ name ∈ names, ∃ f, record.fields.find? (fun f => f.name = name) = some f ∧
    f.isSet d = false

variable (hrecord : record.Regular)

include hrecord

theorem member_eq_ok {name : String} {d d' : δ} {space lead text rest r : List Char}
    (hspace : Space space) (hlead : Space lead) (htext : IsValue text)
    (h : record.member name d (space ++ ':' :: (lead ++ (text ++ rest))) = .ok (d', r)) :
    r = rest ∧ ∀ {names}, record.Lacks d' names → record.Lacks d (name :: names) := by
  unfold member at h
  split at h
  next f hfind =>
    have hf := hrecord.fields f (List.mem_of_find?_eq_some hfind)
    split_ifs at h with hset
    rw [colon_space hspace] at h
    refine ⟨(hf.keeps d) htext (Opens.skip_lead htext.opens hlead rest) h, fun hlacks => ?_⟩
    constructor
    · rw [List.nodup_cons]
      refine ⟨fun hmem => ?_, hlacks.nodup⟩
      obtain ⟨g, hg, hunset⟩ := hlacks.unset name hmem
      cases hfind.symm.trans hg
      rw [hf.sets h] at hunset
      cases hunset
    · rw [List.forall_mem_cons]
      refine ⟨⟨f, hfind, Bool.eq_false_iff.mpr hset⟩, fun n hn => ?_⟩
      obtain ⟨g, hg, hunset⟩ := hlacks.unset n hn
      refine ⟨g, hg, Bool.eq_false_iff.mpr fun hset => ?_⟩
      rw [hf.leaves h g (List.mem_of_find?_eq_some hg) hset] at hunset
      cases hunset
  next =>
    rw [hrecord.strict] at h
    cases h

theorem members_of_some {first : Bool} {fuel : Nat} {d : δ} {s rest r : List Char}
    {m : List Char × List Char} {text : List Char} {x : α} (hm : IsMember m ('"' :: text))
    (hs : nextName first s = .ok (some (text ++ rest)))
    (h : record.members (fuel + 1) first d s = .ok (x, r)) :
    ∃ name d', SpellsBody name m.1 ∧ record.members fuel false d' rest = .ok (x, r) ∧
      ∀ {names}, record.Lacks d' names → record.Lacks d (name :: names) := by
  cases hm with
  | mk hname hspace hlead hvalue =>
    rw [members, hs] at h
    simp only [List.append_assoc, List.cons_append] at h
    obtain ⟨⟨name, s₁⟩, hstring, hread⟩ := bind_eq_ok h
    obtain ⟨⟨d', s₂⟩, hmember, hmembers⟩ := bind_eq_ok hread
    obtain ⟨hspells, rfl⟩ := hname.of_string hstring
    obtain ⟨rfl, hlacks⟩ := member_eq_ok hrecord hspace hlead hvalue hmember
    exact ⟨name, d', hspells, hmembers, hlacks⟩

/-- Behind the first member, what is accepted has the names of different fields. -/
theorem members_names {ms : List (List Char × List Char)} {body rest r : List Char} {x : α}
    (hbody : SpellsRest '\x7d' IsMember ms body) {fuel : Nat} {d : δ}
    (h : record.members fuel false d (body ++ rest) = .ok (x, r)) :
    ∃ names, List.Forall₂ SpellsBody names (ms.map Prod.fst) ∧ record.Lacks d names := by
  -- the names behind a member lack what the draft has after it
  induction hbody generalizing fuel d with
  | nil => exact ⟨[], .nil, .nil, nofun⟩
  | cons hspace hlead hm _ ih =>
    obtain ⟨text, rfl⟩ := hm.opens
    cases fuel with
    | zero => cases h
    | succ fuel =>
      simp only [List.cons_append, List.append_assoc] at h
      obtain ⟨name, d', hname, hmembers, hlacks⟩ :=
        members_of_some hrecord hm (nextName_comma hspace hlead _) h
      obtain ⟨names, hnames, hrest⟩ := ih hmembers
      exact ⟨name :: names, .cons hname hnames, hlacks hrest⟩

/-- An object that is accepted has the names of different fields. -/
theorem read_names {ms : List (List Char × List Char)} {body rest s r : List Char} {x : α}
    (hbody : SpellsItems '\x7d' IsMember ms body) (hskip : skip s = '\x7b' :: (body ++ rest))
    (h : record.read s = .ok (x, r)) :
    ∃ names, List.Forall₂ SpellsBody names (ms.map Prod.fst) ∧
      record.Lacks record.draft names := by
  unfold read at h
  rw [hskip] at h
  cases hbody with
  | nil => exact ⟨[], .nil, .nil, nofun⟩
  | cons hlead hm hothers =>
    obtain ⟨text, rfl⟩ := hm.opens
    simp only [List.cons_append, List.append_assoc] at h
    obtain ⟨name, d', hname, hmembers, hlacks⟩ :=
      members_of_some hrecord hm (nextName_first hlead _) h
    obtain ⟨names, hnames, hrest⟩ := members_names hrecord hothers hmembers
    exact ⟨name :: names, .cons hname hnames, hlacks hrest⟩

theorem decode_names {ms : List (List Char × List Char)} {text : String} {x : α}
    (htext : IsObject ms text) (h : decode record.read text = .ok x) :
    ∃ names, List.Forall₂ SpellsBody names (ms.map Prod.fst) ∧
      record.Lacks record.draft names := by
  obtain ⟨lead, body, space, hlead, -, hbody, rfl⟩ := htext
  unfold decode at h
  rw [String.toList_ofList] at h
  dsimp only at h
  split at h
  next => cases h
  next v r hread =>
    exact read_names hrecord hbody (skip_append_cons hlead rfl _) hread

end Record

end MarkupCatalog.Json

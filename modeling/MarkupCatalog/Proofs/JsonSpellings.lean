import Mathlib.Data.List.Forall2
import Mathlib.Data.List.TakeWhile
import MarkupCatalog.Json.Record
import MarkupCatalog.Json.Writer

/-!
# Spellings of JSON values

A value may be spelled in many ways: with any space around its parts, and with escapes for the
characters of its strings.  Readers of strings, lists and records find the value behind any
spelling, whatever follows it.  Numbers have no spellings here; a reader of numbers may be used for
the items of a list and for the fields of a record, if it finds them.
-/

namespace MarkupCatalog.Json

/-! ## 1. Space -/

def Space (s : List Char) : Prop := ∀ c ∈ s, isSpace c

theorem Space.nil : Space [] := nofun

theorem Space.cons {c : Char} {s : List Char} (hc : isSpace c) (hs : Space s) : Space (c :: s) :=
  List.forall_mem_cons.mpr ⟨hc, hs⟩

theorem isSpace_iff {c : Char} : isSpace c ↔ c = ' ' ∨ c = '\n' ∨ c = '\t' ∨ c = '\r' := by
  simp [isSpace, or_assoc]

theorem skip_cons {c : Char} (h : isSpace c = false) (s : List Char) : skip (c :: s) = c :: s := by
  apply List.dropWhile_cons_of_neg
  rw [h]
  exact Bool.false_ne_true

theorem skip_append {space : List Char} (h : Space space) (s : List Char) :
    skip (space ++ s) = skip s :=
  List.dropWhile_append_of_pos h

theorem skip_append_cons {space : List Char} (h : Space space) {c : Char} (hc : isSpace c = false)
    (s : List Char) : skip (space ++ c :: s) = c :: s := by
  rw [skip_append h, skip_cons hc]

/-! ## 2. Characters -/

/-- The letters that stand for characters behind a backslash. -/
def letterEscapes : List (Char × Char) :=
  [('"', '"'), ('\\', '\\'), ('/', '/'), ('b', '\x08'), ('f', '\x0c'), ('n', '\n'), ('r', '\r'),
    ('t', '\t')]

/-- A hexadecimal digit, as a small or a capital letter. -/
inductive SpellsDigit : Nat → Char → Prop
  | small {n : Nat} (h : n < 16) : SpellsDigit n (Nat.digitChar n)
  | capital {n : Nat} (h : n < 16) : SpellsDigit n (Nat.digitChar n).toUpper

/-- A number of sixteen bits as four hexadecimal digits. -/
inductive SpellsCode : Nat → List Char → Prop
  | digits {a b c d : Nat} {a' b' c' d' : Char} (ha : SpellsDigit a a') (hb : SpellsDigit b b')
      (hc : SpellsDigit c c') (hd : SpellsDigit d d') :
      SpellsCode (16 * (16 * (16 * a + b) + c) + d) [a', b', c', d']

/-- A character within a string: as it is, or as an escape with a letter, with its code, or with the
codes of the two halves of a pair. -/
inductive SpellsChar : Char → List Char → Prop
  | plain {c : Char} (hquote : c ≠ '"') (hslash : c ≠ '\\') (hcontrol : ¬ c < ' ') :
      SpellsChar c [c]
  | letter {e c : Char} (h : (e, c) ∈ letterEscapes) : SpellsChar c ['\\', e]
  | code {c : Char} {code : List Char} (h : SpellsCode c.toNat code) :
      SpellsChar c ('\\' :: 'u' :: code)
  | pair {c : Char} {n : Nat} {high low : List Char} (hc : c.toNat = 0x10000 + n)
      (hhigh : SpellsCode (0xd800 + n / 1024) high) (hlow : SpellsCode (0xdc00 + n % 1024) low) :
      SpellsChar c ('\\' :: 'u' :: (high ++ '\\' :: 'u' :: low))

theorem SpellsDigit.hexValue? {n : Nat} {d : Char} (h : SpellsDigit n d) :
    hexValue? d = some n := by
  have hvalues : ∀ n < 16, Json.hexValue? (Nat.digitChar n) = some n ∧
      Json.hexValue? (Nat.digitChar n).toUpper = some n := by decide
  cases h with
  | small h => exact (hvalues n h).1
  | capital h => exact (hvalues n h).2

theorem SpellsCode.hex4 {n : Nat} {code : List Char} (h : SpellsCode n code) (rest : List Char) :
    hex4 (code ++ rest) = .ok (n, rest) := by
  cases h with
  | @digits a b c d a' b' c' d' ha hb hc hd =>
    have hvalue : hexValueOf? [a', b', c', d'] = some (16 * (16 * (16 * a + b) + c) + d) := by
      simp [hexValueOf?, ha.hexValue?, hb.hexValue?, hc.hexValue?, hd.hexValue?]
    have htake : ([a', b', c', d'] ++ rest).take 4 = [a', b', c', d'] := rfl
    have hlength : [a', b', c', d'].length = 4 := rfl
    unfold Json.hex4
    rw [htake, if_pos hlength, hvalue]
    rfl

theorem unicode_code {c : Char} {code : List Char} (h : SpellsCode c.toNat code)
    (rest : List Char) : unicode (code ++ rest) = .ok (c, rest) := by
  -- no character has a code among the halves of pairs
  have hscalar : c.toNat < 0xd800 ∨ 0xdfff < c.toNat := by
    rcases c.valid with hlow | hhigh
    · exact .inl hlow
    · exact .inr hhigh.1
  unfold unicode
  rw [h.hex4]
  show (if _ then _ else _) = _
  rw [if_pos hscalar, Char.ofNat_toNat]

theorem unicode_pair {c : Char} {n : Nat} {high low : List Char} (hc : c.toNat = 0x10000 + n)
    (hhigh : SpellsCode (0xd800 + n / 1024) high) (hlow : SpellsCode (0xdc00 + n % 1024) low)
    (rest : List Char) : unicode (high ++ '\\' :: 'u' :: (low ++ rest)) = .ok (c, rest) := by
  -- a character beyond sixteen bits has twenty bits to name, ten in each half
  have hbound : n < 1024 * 1024 := by
    have hvalid : c.toNat < 0x110000 := by
      rcases c.valid with hsmall | hlarge
      · exact Nat.lt_trans hsmall (by decide)
      · exact hlarge.2
    omega
  have hpair : ¬ (0xd800 + n / 1024 < 0xd800 ∨ 0xdfff < 0xd800 + n / 1024) := by omega
  have hfirst : ¬ 0xdc00 ≤ 0xd800 + n / 1024 := by omega
  have hsecond : ¬ (0xdc00 + n % 1024 < 0xdc00 ∨ 0xdfff < 0xdc00 + n % 1024) := by omega
  have hcode : 0x10000 + 1024 * (0xd800 + n / 1024 - 0xd800) + (0xdc00 + n % 1024 - 0xdc00) =
      c.toNat := by omega
  unfold unicode
  rw [hhigh.hex4]
  show (if _ then _ else if _ then _ else _) = _
  rw [if_neg hpair, if_neg hfirst]
  show (Json.hex4 (low ++ rest)).bind _ = _
  rw [hlow.hex4]
  show (if _ then _ else _) = _
  rw [if_neg hsecond, hcode, Char.ofNat_toNat]

theorem stringChar_of_spells {c : Char} {piece : List Char} (h : SpellsChar c piece)
    (rest : List Char) : stringChar (piece ++ rest) = .ok (some c, rest) := by
  cases h with
  | plain hquote hslash hcontrol =>
    show (if c = '"' then _ else if c = '\\' then _ else if c < ' ' then _ else _) = _
    rw [if_neg hquote, if_neg hslash, if_neg hcontrol]
    rfl
  | @letter e _ h =>
    have hletters : ∀ p ∈ letterEscapes, p.1 ≠ 'u' ∧ escape? p.1 = some p.2 := by decide
    obtain ⟨hu, hescape⟩ := hletters _ h
    show (if e = 'u' then _ else _) = _
    rw [if_neg hu, hescape]
    rfl
  | code h =>
    show (unicode (_ ++ rest)).map _ = _
    rw [unicode_code h]
    rfl
  | pair hc hhigh hlow =>
    rw [List.cons_append, List.cons_append, List.append_assoc, List.cons_append, List.cons_append]
    show (unicode _).map _ = _
    rw [unicode_pair hc hhigh hlow]
    rfl

theorem SpellsChar.ne_nil {c : Char} {piece : List Char} (h : SpellsChar c piece) : piece ≠ [] := by
  cases h <;> exact List.cons_ne_nil _ _

/-! ## 3. Strings -/

/-- A string behind its opening quote. -/
def SpellsBody (s : String) (body : List Char) : Prop :=
  ∃ pieces, List.Forall₂ SpellsChar s.toList pieces ∧ body = pieces.flatten ++ ['"']

/-- A string in quotes. -/
inductive SpellsString (s : String) : List Char → Prop
  | quoted {body : List Char} (h : SpellsBody s body) : SpellsString s ('"' :: body)

theorem SpellsBody.nil : SpellsBody "" ['"'] := ⟨[], .nil, rfl⟩

theorem SpellsBody.cons {c : Char} {piece body : List Char} {s t : String}
    (ht : t.toList = c :: s.toList) (hc : SpellsChar c piece) (hs : SpellsBody s body) :
    SpellsBody t (piece ++ body) := by
  obtain ⟨pieces, hpieces, rfl⟩ := hs
  refine ⟨piece :: pieces, ?_, ?_⟩
  · rw [ht]
    exact .cons hc hpieces
  · rw [List.flatten_cons, List.append_assoc]

theorem stringChars_of_spells {cs : List Char} {pieces : List (List Char)}
    (h : List.Forall₂ SpellsChar cs pieces) (rest : List Char) :
    ∀ fuel, cs.length < fuel →
      stringChars fuel (pieces.flatten ++ '"' :: rest) = .ok (cs, rest) := by
  induction h with
  | nil =>
    intro fuel hfuel
    obtain ⟨fuel, rfl⟩ := Nat.exists_eq_succ_of_ne_zero (Nat.ne_of_gt hfuel)
    rfl
  | @cons c piece cs pieces hc _ ih =>
    intro fuel hfuel
    obtain ⟨fuel, rfl⟩ := Nat.exists_eq_succ_of_ne_zero (Nat.ne_of_gt (Nat.zero_lt_of_lt hfuel))
    rw [List.flatten_cons, List.append_assoc, stringChars, stringChar_of_spells hc]
    show (stringChars fuel _).map _ = _
    rw [ih fuel (Nat.lt_of_succ_lt_succ hfuel)]
    rfl

theorem length_le_flatten {cs : List Char} {pieces : List (List Char)}
    (h : List.Forall₂ SpellsChar cs pieces) : cs.length ≤ pieces.flatten.length := by
  induction h with
  | nil => exact Nat.le_refl 0
  | cons hc _ ih =>
    have hpiece := List.length_pos_of_ne_nil hc.ne_nil
    rw [List.flatten_cons, List.length_append, List.length_cons]
    omega

theorem SpellsBody.string {s : String} {body : List Char} (h : SpellsBody s body)
    (rest : List Char) : string (body ++ rest) = .ok (s, rest) := by
  obtain ⟨pieces, hpieces, rfl⟩ := h
  -- every character takes up some of the text, whose length is the fuel
  have hfuel : s.toList.length < (pieces.flatten ++ '"' :: rest).length + 1 := by
    have hlength := length_le_flatten hpieces
    rw [List.length_append]
    omega
  rw [List.append_assoc, List.singleton_append]
  unfold Json.string
  rw [stringChars_of_spells hpieces rest _ hfuel]
  show Except.ok (String.ofList s.toList, rest) = _
  rw [String.ofList_toList]

theorem SpellsBody.unique {s t : String} {body : List Char} (hs : SpellsBody s body)
    (ht : SpellsBody t body) : s = t := by
  have hread := (hs.string []).symm.trans (ht.string [])
  exact (Prod.mk.inj (Except.ok.inj hread)).1

/-! ## 4. Values -/

/-- Items behind the first one, each behind a comma, and the closing bracket. -/
inductive SpellsRest (close : Char) (item : α → List Char → Prop) : List α → List Char → Prop
  | nil {space : List Char} (hspace : Space space) : SpellsRest close item [] (space ++ [close])
  | cons {space lead text rest : List Char} {x : α} {xs : List α} (hspace : Space space)
      (hlead : Space lead) (hx : item x text) (hrest : SpellsRest close item xs rest) :
      SpellsRest close item (x :: xs) (space ++ ',' :: (lead ++ (text ++ rest)))

/-- Items behind an opening bracket. -/
inductive SpellsItems (close : Char) (item : α → List Char → Prop) : List α → List Char → Prop
  | nil {space : List Char} (hspace : Space space) : SpellsItems close item [] (space ++ [close])
  | cons {lead text rest : List Char} {x : α} {xs : List α} (hlead : Space lead) (hx : item x text)
      (hrest : SpellsRest close item xs rest) :
      SpellsItems close item (x :: xs) (lead ++ (text ++ rest))

/-- A name and a value with a colon between them. -/
inductive SpellsMember (value : α → List Char → Prop) : String × α → List Char → Prop
  | mk {name : String} {v : α} {body space lead text : List Char} (hname : SpellsBody name body)
      (hspace : Space space) (hlead : Space lead) (hv : value v text) :
      SpellsMember value (name, v) ('"' :: (body ++ (space ++ ':' :: (lead ++ text))))

inductive Spells : Value → List Char → Prop
  | null : Spells .null "null".toList
  | string {s : String} {text : List Char} (h : SpellsString s text) : Spells (.string s) text
  | list {items : List Value} {body : List Char} (h : SpellsItems ']' Spells items body) :
      Spells (.list items) ('[' :: body)
  | object {members : List (String × Value)} {body : List Char}
      (h : SpellsItems '\x7d' (SpellsMember Spells) members body) :
      Spells (.object members) ('\x7b' :: body)

theorem length_lt_rest {close : Char} {item : α → List Char → Prop} {xs : List α}
    {text : List Char} (h : SpellsRest close item xs text) : xs.length < text.length := by
  induction h with
  | nil => simp
  | cons _ _ _ _ ih =>
    simp only [List.length_cons, List.length_append]
    omega

section Related

variable {close : Char} {item : α → List Char → Prop} {image : β → List Char → Prop}
  {xs : List α} {text : List Char}

theorem SpellsRest.of_forall₂ {ys : List β}
    (h : List.Forall₂ (fun x y => ∀ t, image y t → item x t) xs ys)
    (htext : SpellsRest close image ys text) : SpellsRest close item xs text := by
  induction h generalizing text with
  | nil =>
    cases htext with
    | nil hspace => exact .nil hspace
  | cons hx _ ih =>
    cases htext with
    | cons hspace hlead hy hrest => exact .cons hspace hlead (hx _ hy) (ih hrest)

theorem SpellsItems.of_forall₂ {ys : List β}
    (h : List.Forall₂ (fun x y => ∀ t, image y t → item x t) xs ys)
    (htext : SpellsItems close image ys text) : SpellsItems close item xs text := by
  cases h with
  | nil =>
    cases htext with
    | nil hspace => exact .nil hspace
  | cons hx hxs =>
    cases htext with
    | cons hlead hy hrest => exact .cons hlead (hx _ hy) (hrest.of_forall₂ hxs)

theorem SpellsItems.of_map {f : α → β} (h : ∀ x ∈ xs, ∀ t, image (f x) t → item x t)
    (htext : SpellsItems close image (xs.map f) text) : SpellsItems close item xs text :=
  htext.of_forall₂ (List.forall₂_map_right_iff.mpr (List.forall₂_same.mpr h))

end Related

/-! ## 5. Readers -/

/-- What may follow a value. -/
def Delimited (rest : List Char) : Prop :=
  ∀ c ∈ rest.head?, c = ',' ∨ c = ']' ∨ c = '\x7d' ∨ isSpace c

theorem Delimited.nil : Delimited [] := nofun

theorem Delimited.space_append {space : List Char} (h : Space space) {c : Char}
    (hc : c = ',' ∨ c = ']' ∨ c = '\x7d') (rest : List Char) : Delimited (space ++ c :: rest) := by
  intro d hd
  cases space with
  | nil => exact Option.some.inj hd ▸ hc.imp_right (Or.imp_right .inl)
  | cons e space => exact Option.some.inj hd ▸ .inr (.inr (.inr (h e List.mem_cons_self)))

theorem delimited_rest {close : Char} {item : α → List Char → Prop} {xs : List α}
    {text : List Char} (h : SpellsRest close item xs text) (hclose : close = ']' ∨ close = '\x7d')
    (rest : List Char) : Delimited (text ++ rest) := by
  cases h with
  | nil hspace =>
    rw [List.append_assoc]
    exact .space_append hspace (.inr hclose) rest
  | cons hspace =>
    rw [List.append_assoc]
    exact .space_append hspace (.inl rfl) _

/-- The text begins with neither space nor the end of a list. -/
def Opens (text : List Char) : Prop := ∃ c r, text = c :: r ∧ isSpace c = false ∧ c ≠ ']'

theorem Opens.skip_text {text : List Char} (h : Opens text) (rest : List Char) :
    skip (text ++ rest) = text ++ rest := by
  obtain ⟨c, r, rfl, hc, -⟩ := h
  exact skip_cons hc _

theorem Opens.skip_lead {text lead : List Char} (h : Opens text) (hlead : Space lead)
    (rest : List Char) : skip (lead ++ (text ++ rest)) = text ++ rest := by
  rw [skip_append hlead, h.skip_text]

/-- The reader finds the value in front of what follows its text, behind any space. -/
structure Reads (reader : Reader α) (text : List Char) (value : α) : Prop where
  opens : ∃ c r, text = c :: r ∧ isSpace c = false ∧ c ≠ ']'
  read : ∀ s rest, skip s = text ++ rest → Delimited rest → reader s = .ok (value, rest)

section Reads

variable {reader : Reader α} {text : List Char} {value : α} (h : Reads reader text value)

include h

theorem Reads.read_text {rest : List Char} (hrest : Delimited rest) :
    reader (text ++ rest) = .ok (value, rest) :=
  h.read _ rest (Opens.skip_text h.opens rest) hrest

theorem reads_some (hn : text.head? ≠ some 'n') : Reads (optional reader) text (some value) where
  opens := h.opens
  read := by
    intro s rest hskip hrest
    obtain ⟨c, r, htext, -⟩ := h.opens
    have hread := h.read_text hrest
    unfold optional
    rw [hskip]
    split
    next r' heq =>
      -- the reader would take the value for null
      rw [htext] at hn heq
      exact absurd (congrArg some (List.cons.inj heq).1) hn
    next => rw [hread]; rfl

end Reads

theorem reads_null (reader : Reader α) : Reads (optional reader) "null".toList none where
  opens := ⟨'n', "ull".toList, rfl, rfl, by decide⟩
  read := by
    intro s rest hskip _
    have hskip : skip s = 'n' :: 'u' :: 'l' :: 'l' :: rest := hskip
    unfold optional
    rw [hskip]
    rfl

theorem stringAs_of_spells {s : String} {text : List Char} (h : SpellsString s text)
    (expected : String) : Reads (stringAs expected) text s := by
  cases h with
  | @quoted body h =>
    refine ⟨⟨'"', body, rfl, rfl, by decide⟩, ?_⟩
    intro t rest hskip _
    unfold stringAs
    rw [hskip]
    exact h.string rest

/-! ## 6. Lists -/

section Lists

variable {item : Reader α}

theorem nextItem_first {text lead : List Char} (h : Opens text) (hlead : Space lead)
    (rest : List Char) : nextItem true (lead ++ (text ++ rest)) = .ok (some (text ++ rest)) := by
  unfold nextItem
  rw [h.skip_lead hlead]
  obtain ⟨c, r, rfl, -, hc⟩ := h
  simp

theorem nextItem_comma {text space lead : List Char} (h : Opens text) (hspace : Space space)
    (hlead : Space lead) (rest : List Char) :
    nextItem false (space ++ ',' :: (lead ++ (text ++ rest))) = .ok (some (text ++ rest)) := by
  have hcomma : isSpace ',' = false := rfl
  have hskip := h.skip_lead hlead rest
  obtain ⟨c, r, rfl, -, hc⟩ := h
  rw [List.cons_append] at hskip ⊢
  unfold nextItem
  simp [skip_append_cons hspace hcomma, hskip, hc]

theorem nextItem_close (first : Bool) {space : List Char} (hspace : Space space)
    (rest : List Char) : nextItem first (space ++ ']' :: rest) = .ok none := by
  unfold nextItem
  rw [skip_append_cons hspace rfl]
  rfl

theorem closeList_close {space : List Char} (hspace : Space space) (rest : List Char) :
    closeList (space ++ ']' :: rest) = .ok rest := by
  unfold closeList
  rw [skip_append_cons hspace rfl]
  rfl

/-- The items behind the first one are read to the end of the list. -/
theorem items_of_spells {xs : List α} {text : List Char}
    (h : SpellsRest ']' (fun x t => Reads item t x) xs text) (rest : List Char) :
    ∀ fuel, xs.length < fuel → items item fuel false (text ++ rest) = .ok (xs, rest) := by
  -- induction on the items; behind each stand the other items or the end of the list, and both
  -- are delimiters
  induction h with
  | nil hspace =>
    intro fuel hfuel
    obtain ⟨fuel, rfl⟩ := Nat.exists_eq_succ_of_ne_zero (Nat.ne_of_gt hfuel)
    rw [List.append_assoc, List.singleton_append, items, nextItem_close false hspace,
      closeList_close hspace]
    rfl
  | cons hspace hlead hx hrest ih =>
    intro fuel hfuel
    obtain ⟨fuel, rfl⟩ := Nat.exists_eq_succ_of_ne_zero (Nat.ne_of_gt (Nat.zero_lt_of_lt hfuel))
    simp only [List.cons_append, List.append_assoc]
    rw [items, nextItem_comma hx.opens hspace hlead]
    show (item _).bind _ = _
    rw [hx.read_text (delimited_rest hrest (.inl rfl) rest)]
    show (items item fuel false _).map _ = _
    rw [ih fuel (Nat.lt_of_succ_lt_succ hfuel)]
    rfl

/-- A list is found if its items are. -/
theorem reads_list {xs : List α} {body : List Char}
    (h : SpellsItems ']' (fun x t => Reads item t x) xs body) :
    Reads (list item) ('[' :: body) xs where
  opens := ⟨'[', body, rfl, rfl, by decide⟩
  read := by
    intro s rest hskip _
    unfold list
    rw [hskip]
    show items item ((body ++ rest).length + 1) true (body ++ rest) = _
    cases h with
    | nil hspace =>
      rw [List.append_assoc, List.singleton_append, items, nextItem_close true hspace,
        closeList_close hspace]
      rfl
    | @cons lead text others x xs hlead hx hothers =>
      -- every item takes up some of the text, whose length is the fuel
      have hfuel : xs.length < (lead ++ (text ++ others) ++ rest).length := by
        have hlength := length_lt_rest hothers
        simp only [List.length_append]
        omega
      have htail := items_of_spells hothers rest _ hfuel
      simp only [List.append_assoc] at htail ⊢
      rw [items, nextItem_first hx.opens hlead]
      show (item _).bind _ = _
      rw [hx.read_text (delimited_rest hothers (.inl rfl) rest)]
      show (items item _ false _).map _ = _
      rw [htail]
      rfl

end Lists

/-! ## 7. Records -/

theorem nextName_first {lead : List Char} (hlead : Space lead) (rest : List Char) :
    nextName true (lead ++ '"' :: rest) = .ok (some rest) := by
  unfold nextName
  rw [skip_append_cons hlead rfl]
  rfl

theorem nextName_comma {space lead : List Char} (hspace : Space space) (hlead : Space lead)
    (rest : List Char) :
    nextName false (space ++ ',' :: (lead ++ '"' :: rest)) = .ok (some rest) := by
  unfold nextName
  rw [skip_append_cons hspace rfl]
  simp [skip_append_cons hlead (rfl : isSpace '"' = false)]

theorem nextName_close (first : Bool) {space : List Char} (hspace : Space space)
    (rest : List Char) : nextName first (space ++ '\x7d' :: rest) = .ok none := by
  unfold nextName
  rw [skip_append_cons hspace rfl]
  rfl

theorem afterObject_close {space : List Char} (hspace : Space space) (rest : List Char) :
    afterObject (space ++ '\x7d' :: rest) = rest := by
  unfold afterObject
  rw [skip_append_cons hspace rfl]
  rfl

theorem colon_space {space : List Char} (hspace : Space space) (rest : List Char) :
    colon (space ++ ':' :: rest) = .ok rest := by
  unfold colon
  rw [skip_append_cons hspace rfl]
  rfl

namespace Record

variable {record : Record δ α} {value : β → List Char → Prop}

/-- A member behind its name changes the draft, whatever spelling its value has. -/
def Takes (record : Record δ α) (value : β → List Char → Prop) (d : δ) (name : String) (v : β)
    (d' : δ) : Prop :=
  ∀ space lead text rest, Space space → Space lead → value v text → Delimited rest →
    record.member name d (space ++ ':' :: (lead ++ (text ++ rest))) = .ok (d', rest)

/-- A field that is not set yet takes the value that its reader finds. -/
theorem takes_field {f : Field δ} {d d' : δ} {name : String} {v : β} {reader : Reader γ} {x : γ}
    (hfield : record.fields.find? (fun f => f.name = name) = some f) (hset : f.isSet d = false)
    (hread : ∀ s rest, reader s = .ok (x, rest) → f.read d s = .ok (d', rest))
    (hvalue : ∀ text, value v text → Reads reader text x) : record.Takes value d name v d' := by
  intro space lead text rest hspace hlead hv hrest
  have hx := hvalue text hv
  unfold member
  rw [hfield]
  show (if f.isSet d then _ else _) = _
  rw [hset, colon_space hspace]
  exact hread _ rest (hx.read _ rest (Opens.skip_lead hx.opens hlead rest) hrest)

/-- The members fill the draft one after the other. -/
inductive Fills (record : Record δ α) (value : β → List Char → Prop) :
    δ → List (String × β) → δ → Prop
  | nil {d : δ} : Fills record value d [] d
  | cons {d d₁ d₂ : δ} {name : String} {v : β} {ms : List (String × β)}
      (hv : record.Takes value d name v d₁) (hms : Fills record value d₁ ms d₂) :
      Fills record value d ((name, v) :: ms) d₂

theorem members_step {d d₁ : δ} {name : String} {v : β} {text : List Char}
    (hm : SpellsMember value (name, v) ('"' :: text)) (hv : record.Takes value d name v d₁)
    {rest : List Char} (hrest : Delimited rest) (fuel : Nat) {first : Bool} {s : List Char}
    (hs : nextName first s = .ok (some (text ++ rest))) :
    record.members (fuel + 1) first d s = record.members fuel false d₁ rest := by
  cases hm with
  | mk hname hspace hlead hvalue =>
    simp only [List.append_assoc, List.cons_append] at hs
    rw [members, hs]
    show (string _).bind _ = _
    rw [hname.string]
    show (record.member name d _).bind _ = _
    rw [hv _ _ _ _ hspace hlead hvalue hrest]
    rfl

theorem SpellsMember.opens {m : String × β} {text : List Char} (h : SpellsMember value m text) :
    ∃ r, text = '"' :: r := by
  cases h
  exact ⟨_, rfl⟩

/-- The members behind the first one are read to the end of the object. -/
theorem members_of_spells {ms : List (String × β)} {text : List Char}
    (htext : SpellsRest '\x7d' (SpellsMember value) ms text) {d d' : δ}
    (h : Fills record value d ms d') {x : α} (hfinish : record.finish d' = .ok x)
    (rest : List Char) : ∀ fuel, ms.length < fuel →
      record.members fuel false d (text ++ rest) = .ok (x, rest) := by
  -- each member takes the draft one step further, and at the end the draft is finished
  induction htext generalizing d with
  | nil hspace =>
    intro fuel hfuel
    obtain ⟨fuel, rfl⟩ := Nat.exists_eq_succ_of_ne_zero (Nat.ne_of_gt hfuel)
    cases h with
    | nil =>
      rw [List.append_assoc, List.singleton_append, members, nextName_close false hspace]
      show record.finished _ (afterObject _) = _
      rw [afterObject_close hspace, finished, hfinish]
  | cons hspace hlead hm hothers ih =>
    intro fuel hfuel
    obtain ⟨fuel, rfl⟩ := Nat.exists_eq_succ_of_ne_zero (Nat.ne_of_gt (Nat.zero_lt_of_lt hfuel))
    cases h with
    | cons hv hms =>
      obtain ⟨r, rfl⟩ := SpellsMember.opens hm
      simp only [List.cons_append, List.append_assoc]
      rw [members_step hm hv (delimited_rest hothers (.inr rfl) rest) fuel
        (nextName_comma hspace hlead _)]
      exact ih hms fuel (Nat.lt_of_succ_lt_succ hfuel)

/-- A record is found if its members are. -/
theorem reads {ms : List (String × β)} {body : List Char}
    (hbody : SpellsItems '\x7d' (SpellsMember value) ms body) {d' : δ}
    (h : Fills record value record.draft ms d') {x : α} (hfinish : record.finish d' = .ok x) :
    Reads record.read ('\x7b' :: body) x where
  opens := ⟨'\x7b', body, rfl, rfl, by decide⟩
  read := by
    intro s rest hskip _
    unfold read
    rw [hskip]
    show record.members ((body ++ rest).length + 1) true record.draft (body ++ rest) = _
    cases hbody with
    | nil hspace =>
      cases h with
      | nil =>
        rw [List.append_assoc, List.singleton_append, members, nextName_close true hspace]
        show record.finished _ (afterObject _) = _
        rw [afterObject_close hspace, finished, hfinish]
    | cons hlead hm hothers =>
      cases h with
      | cons hv hms =>
        obtain ⟨r, rfl⟩ := SpellsMember.opens hm
        simp only [List.cons_append, List.append_assoc]
        rw [members_step hm hv (delimited_rest hothers (.inr rfl) rest) _
          (nextName_first hlead _)]
        apply members_of_spells hothers hms hfinish rest
        have hlength := length_lt_rest hothers
        simp only [List.length_append, List.length_cons]
        omega

end Record

/-! ## 8. Whole texts -/

theorem decode_of_reads {reader : Reader α} {text : List Char} {value : α}
    (h : Reads reader text value) {lead space : List Char} (hlead : Space lead)
    (hspace : Space space) :
    decode reader (String.ofList (lead ++ (text ++ space))) = .ok value := by
  have hrest : Delimited space :=
    fun c hc => .inr (.inr (.inr (hspace c (List.mem_of_mem_head? hc))))
  have hread := h.read _ space (Opens.skip_lead h.opens hlead space) hrest
  have hskip : skip space = [] := List.dropWhile_eq_nil_iff.mpr hspace
  unfold decode
  simp only [String.toList_ofList, hread, hskip]

end MarkupCatalog.Json

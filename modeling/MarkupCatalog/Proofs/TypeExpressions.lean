import MarkupCatalog.Proofs.WrittenComments

/-!
# Type expressions

Behind the name of a tag there may be a type in braces, which is no part of the tag's text.  A type
that has braces of its own is cut at the first closing one, and what is left of it stays.  The main
statement is that a tag with a type is read as the tag exactly where there are no braces in the
type, wherever the tag stands in the comment.
-/

namespace MarkupCatalog

/-! ## 1. Characters that are no blanks -/

namespace Text

/-- The number of characters that are no blanks. -/
def ink (s : List Char) : Nat := s.countP fun c => !isBlank c

theorem ink_append (s t : List Char) : ink (s ++ t) = ink s + ink t := List.countP_append

theorem ink_cons {c : Char} (hc : isBlank c = false) (s : List Char) : ink (c :: s) = ink s + 1 :=
  List.countP_cons_of_pos (by rw [hc, Bool.not_false])

theorem ink_of_blank {s : List Char} (h : ∀ c ∈ s, isBlank c) : ink s = 0 :=
  List.countP_eq_zero.mpr fun c hc => by rw [h c hc, Bool.not_true]; exact Bool.false_ne_true

theorem ink_trimStart (s : List Char) : ink (trimStart s) = ink s := by
  have hblank : ∀ c ∈ s.takeWhile isBlank, isBlank c := fun c hc => List.mem_takeWhile_imp hc
  calc ink (trimStart s)
    _ = ink (s.takeWhile isBlank) + ink (trimStart s) := by rw [ink_of_blank hblank, Nat.zero_add]
    _ = ink s := by rw [← ink_append, trimStart, List.takeWhile_append_dropWhile]

theorem ink_trim (s : List Char) : ink (trim s) = ink s := by
  obtain ⟨b, hs, hb⟩ := trimEnd_append_rest (trimStart s)
  calc ink (trim s)
    _ = ink (trimEnd (trimStart s) ++ b) := by rw [ink_append, ink_of_blank hb, trim, Nat.add_zero]
    _ = ink s := by rw [← hs, ink_trimStart]

end Text

namespace Doc

open Text

/-! ## 2. Names and texts of parameters -/

/-- Without a group in brackets the name is the first word. -/
theorem splitName_eq_span {s : List Char}
    (h : ¬ ∃ w rest, ']' ∉ w ∧ s = '[' :: w ++ ']' :: rest) :
    splitName s = s.span fun c => !isBlank c := by
  unfold splitName
  split
  next r =>
    have hopen : ']' ∉ r := by
      intro hmem
      obtain ⟨w, rest, rfl, hw⟩ := List.eq_append_cons_of_mem hmem
      exact h ⟨w, rest, hw, rfl⟩
    rw [span_ne_self hopen]
  next => rfl

/-- A name is a group in brackets, or it has no blanks. -/
theorem splitName_cases (s : List Char) :
    (∃ w rest, ']' ∉ w ∧ s = '[' :: w ++ ']' :: rest ∧ splitName s = ('[' :: w ++ [']'], rest)) ∨
    (∃ word rest, (∀ c ∈ word, isBlank c = false) ∧ s = word ++ rest ∧
      splitName s = (word, rest)) := by
  by_cases hclosed : ∃ w rest, ']' ∉ w ∧ s = '[' :: w ++ ']' :: rest
  · obtain ⟨w, rest, hw, rfl⟩ := hclosed
    exact .inl ⟨w, rest, hw, rfl, splitName_of_brackets hw⟩
  · rw [splitName_eq_span hclosed, List.span_eq_takeWhile_dropWhile]
    refine .inr ⟨_, _, fun c hc => ?_, List.takeWhile_append_dropWhile.symm, rfl⟩
    simpa using List.mem_takeWhile_imp hc

theorem bareName_sublist (s : List Char) : (bareName s).Sublist s := by
  have hend : ((s.dropWhile (· = '[')).rdropWhile (fun c => decide (c = ']'))).Sublist s :=
    (List.rdropWhile_prefix _ _).sublist.trans (List.dropWhile_sublist _)
  exact ((trim_sublist _).trans (List.takeWhile_sublist _)).trans hend

/-- The name in brackets has no closing one, since the first of these closes them. -/
theorem not_mem_bareName {w : List Char} (hw : ']' ∉ w) : ']' ∉ bareName ('[' :: w ++ [']']) := by
  rw [bareName_brackets]
  exact fun hmem => hw ((bareName_sublist w).subset hmem)

theorem dropDash_sublist (s : List Char) : (dropDash s).Sublist s := by
  unfold dropDash
  split
  next c r =>
    split
    next => exact ((List.dropWhile_sublist _).cons c).cons '-'
    next => exact .refl _
  next => exact .refl _

/-- What a dash takes away is the dash, and blanks. -/
theorem ink_le_dropDash (s : List Char) : ink s ≤ ink (dropDash s) + 1 := by
  unfold dropDash
  split
  next c r =>
    split
    next hc =>
      have hblank : ink (c :: r) = ink r := List.countP_cons_of_neg (by simp [hc])
      rw [ink_cons (by decide), hblank, ink_trimStart]
    next => exact Nat.le_succ _
  next => exact Nat.le_succ _

section Text

variable (rest : List Char)

/-- The text of a parameter is taken from what stands behind the name. -/
theorem text_sublist : (trim (dropDash (trimStart rest))).Sublist rest :=
  ((trim_sublist _).trans (dropDash_sublist _)).trans (List.dropWhile_sublist _)

theorem ink_le_text : ink rest ≤ ink (trim (dropDash (trimStart rest))) + 1 := by
  rw [ink_trim, ← ink_trimStart rest]
  exact ink_le_dropDash _

end Text

/-- The name of a parameter with a text, and the blank before it. -/
def parameterEnd (name text : List Char) : List Char :=
  ' ' :: (name ++ ' ' :: '-' :: ' ' :: text)

section Left

variable {name text rest : List Char}

/-- Where the name is still ahead, it is part of the text. -/
theorem ink_lt_text_of_name_ahead (hblank : ∀ c ∈ name, isBlank c = false) (hne : name ≠ [])
    {extra : List Char} (hrest : rest = extra ++ parameterEnd name text) :
    ink text < ink (trim (dropDash (trimStart rest))) := by
  obtain ⟨c, r, rfl⟩ := List.exists_cons_of_ne_nil hne
  have hspace (s : List Char) : ink (' ' :: s) = ink s := List.countP_cons_of_neg (by decide)
  have hname : ink (c :: r) = ink r + 1 := ink_cons (hblank c List.mem_cons_self) r
  have hend : ink (parameterEnd (c :: r) text) = ink (c :: r) + (ink text + 1) := by
    have hdash : ink ('-' :: ' ' :: text) = ink text + 1 := by rw [ink_cons rfl, hspace]
    rw [parameterEnd, hspace, ink_append, hspace, hdash]
  -- a dash takes away one character at most, but the name and its own dash have two at least
  have hle := ink_le_text rest
  rw [hrest, ink_append, hend, hname, ← hrest] at hle
  omega

/-- Where brackets that open before the name close behind it, they close in the text. -/
theorem count_text_lt_of_brackets (hname : ']' ∉ name) {w : List Char} (hw : ']' ∉ w)
    (hend : parameterEnd name text = w ++ ']' :: rest) :
    (trim (dropDash (trimStart rest))).count ']' < text.count ']' := by
  -- the bracket that closes is one of the text and is not in the rest
  have hcount : text.count ']' = rest.count ']' + 1 := by
    have hcounts := congrArg (List.count ']') hend
    simpa [parameterEnd, List.count_eq_zero_of_not_mem hname, List.count_eq_zero_of_not_mem hw]
      using hcounts
  have hle := (text_sublist rest).count_le ']'
  omega

end Left

/-- What is left before the name of a parameter makes a difference: it is taken for the name, or it
opens brackets that close in the text. -/
theorem readParameter_ne {name text : String} (hblank : ∀ c ∈ name.toList, isBlank c = false)
    (hne : name.toList ≠ []) {s before : List Char}
    (hs : dropType s = before ++ parameterEnd name.toList text.toList) :
    readParameter s ≠ .parameter name text := by
  intro hread
  obtain ⟨w, rest, hsplit⟩ : ∃ w rest, splitName (dropType s) = (w, rest) := ⟨_, _, rfl⟩
  have hbody : Tag.parameter (String.ofList (bareName w))
      (String.ofList (trim (dropDash (trimStart rest)))) = .parameter name text := by
    rw [← hread, readParameter, hsplit]
  obtain ⟨hname, htext⟩ : bareName w = name.toList ∧
      trim (dropDash (trimStart rest)) = text.toList := by
    simpa [Tag.parameter, ← String.toList_inj] using hbody
  have hahead (extra : List Char) :
      rest ≠ extra ++ parameterEnd name.toList text.toList := by
    intro hrest
    have hlt := ink_lt_text_of_name_ahead hblank hne hrest
    rw [htext] at hlt
    exact Nat.lt_irrefl _ hlt
  rcases splitName_cases (dropType s) with ⟨u, r, hu, heq, hgroup⟩ | ⟨word, r, hword, heq, hsplit'⟩
  · obtain ⟨rfl, rfl⟩ := Prod.mk.inj (hsplit.symm.trans hgroup)
    rw [hs] at heq
    rcases List.append_eq_append_iff.mp heq with ⟨v, hopen, hend⟩ | ⟨v, -, hclosed⟩
    · -- the brackets close behind the start of the name
      have hv : ']' ∉ v := by
        have hgroup : ']' ∉ '[' :: u := by simp [hu]
        rw [hopen] at hgroup
        exact fun h => hgroup (List.mem_append_right _ h)
      have hlt := count_text_lt_of_brackets (hname ▸ not_mem_bareName hu) hv hend
      rw [htext] at hlt
      exact Nat.lt_irrefl _ hlt
    · cases v with
      | nil => cases hclosed
      | cons c v => exact hahead v (List.cons.inj hclosed).2
  · obtain ⟨rfl, rfl⟩ := Prod.mk.inj (hsplit.symm.trans hsplit')
    rw [hs] at heq
    rcases List.append_eq_append_iff.mp heq with ⟨v, hw, hend⟩ | ⟨v, -, hrest⟩
    · cases v with
      | nil => exact hahead [] hend.symm
      | cons c v =>
        -- a word does not reach beyond the blank before the name
        obtain rfl : ' ' = c := (List.cons.inj hend).1
        have hspace : isBlank ' ' = false := hword ' ' (by rw [hw]; simp)
        cases hspace
    · exact hahead v hrest

/-! ## 3. Types -/

/-- A text in which the braces match. -/
inductive Balanced : List Char → Prop
  | nil : Balanced []
  | char {c : Char} {s : List Char} (hopen : c ≠ '\x7b') (hclose : c ≠ '\x7d') (hs : Balanced s) :
      Balanced (c :: s)
  | braces {s t : List Char} (hs : Balanced s) (ht : Balanced t) :
      Balanced ('\x7b' :: s ++ '\x7d' :: t)

theorem Balanced.append_left {s t : List Char} (ht : Balanced t)
    (hs : ∀ c ∈ s, c ≠ '\x7b' ∧ c ≠ '\x7d') : Balanced (s ++ t) := by
  induction s with
  | nil => exact ht
  | cons c s ih =>
    obtain ⟨hopen, hclose⟩ := hs c List.mem_cons_self
    exact .char hopen hclose (ih fun d hd => hs d (List.mem_cons_of_mem _ hd))

theorem Balanced.of_noBraces {s : List Char} (hs : ∀ c ∈ s, c ≠ '\x7b' ∧ c ≠ '\x7d') :
    Balanced s := by
  have hbalanced := Balanced.nil.append_left hs
  rwa [List.append_nil] at hbalanced

theorem Balanced.close_mem_iff {s : List Char} (h : Balanced s) : '\x7d' ∈ s ↔ '\x7b' ∈ s := by
  induction h with
  | nil => exact iff_of_false List.not_mem_nil List.not_mem_nil
  | char hopen hclose _ ih =>
    rw [List.mem_cons, List.mem_cons, ih, or_iff_right hopen.symm, or_iff_right hclose.symm]
  | braces => exact iff_of_true (by simp) (by simp)

theorem dropType_of_close {type : List Char} (hclose : '\x7d' ∈ type) (rest : List Char) :
    ∃ left, dropType ('\x7b' :: type ++ ['\x7d'] ++ rest) = left ++ '\x7d' :: rest := by
  obtain ⟨start, others, rfl, hstart⟩ := List.eq_append_cons_of_mem hclose
  refine ⟨trimStart others, ?_⟩
  calc dropType ('\x7b' :: (start ++ '\x7d' :: others) ++ ['\x7d'] ++ rest)
    _ = dropType ('\x7b' :: start ++ ['\x7d'] ++ (others ++ '\x7d' :: rest)) := by simp
    _ = trimStart others ++ '\x7d' :: rest := by
      rw [dropType_of_type hstart, trimStart_append rfl]

/-! ## 4. Tags with a type -/

namespace Tag

/-- A tag behind whose name a type may stand. -/
inductive TakesType : Tag → Prop
  | parameter {name text : String} (hname : IsParameterName name.toList)
      (hword : NameStyle.bare.Fits name.toList) : TakesType (.parameter name text)
  | text {name text : String} (hname : name ∈ typedTags) : TakesType (.plain name text)

/-- The tag with a type in braces, on one line. -/
def typedLine (t : Tag) (type : List Char) : List Char :=
  '@' :: t.name.toList ++ ' ' :: t.written { type := some type }

theorem ne_param_of_typed {name : String} (hname : name ∈ typedTags) : name ≠ "param" := by
  rintro rfl
  exact absurd hname (by decide)

theorem written_typed {name text : String} (hname : name ∈ typedTags) (s : Spelling) :
    (Tag.plain name text).written s = s.writeType ++ text.toList := by
  show (if name ∈ typedTags then s.writeType else []) ++ text.toList = _
  rw [if_pos hname]

namespace TakesType

variable {t : Tag} (ht : t.TakesType)

include ht

theorem isTagName : IsTagName t.name.toList := by
  cases ht with
  | parameter =>
    have hparam : IsTagName "param".toList := ⟨'p', "aram".toList, rfl, by decide⟩
    exact hparam
  | text hname =>
    have hall : ∀ name ∈ typedTags, IsTagName name.toList := by
      simp only [typedTags, List.forall_mem_cons]
      exact ⟨⟨'r', "eturns".toList, rfl, by decide⟩, ⟨'r', "eturn".toList, rfl, by decide⟩,
        ⟨'t', "hrows".toList, rfl, by decide⟩, ⟨'t', "ype".toList, rfl, by decide⟩, nofun⟩
    exact hall _ hname

theorem written_prefix (type : List Char) :
    ∃ rest, t.written { type := some type } = '\x7b' :: type ++ '\x7d' :: ' ' :: rest := by
  cases ht with
  | @parameter name text =>
    refine ⟨name.toList ++ (dash text ++ text.toList), ?_⟩
    rw [written_parameter]
    simp [Spelling.writeType, NameStyle.write]
  | @text name text hname =>
    refine ⟨text.toList, ?_⟩
    rw [written_typed hname]
    simp [Spelling.writeType]

/-- A type without braces is dropped. -/
theorem ofText_written_of_no_close (htext : Trimmed t.text.toList) {type : List Char}
    (hclose : '\x7d' ∉ type) (hline : '\n' ∉ type) :
    ofText t.name (trim (t.written { type := some type })) = t := by
  have htype : ∀ type' ∈ some type, '\x7d' ∉ type' ∧ '\n' ∉ type' := by
    rintro _ ⟨⟩
    exact ⟨hclose, hline⟩
  cases ht with
  | parameter hname hword =>
    exact ofText_written_parameter hname htext
      ⟨htype, fun _ _ hbody => by cases hbody; exact hword, nofun⟩
  | @text name text hname =>
    exact ofText_written_text (ne_param_of_typed hname) htext ⟨htype, nofun, nofun⟩

section Text

variable (htext : Trimmed t.text.toList) (hne : t.text ≠ "") (type : List Char)

include htext hne

theorem trimmed_written : Trimmed (t.written { type := some type }) := by
  cases ht with
  | parameter hname hword =>
    have hne := List.append_ne_nil_of_left_ne_nil (NameStyle.write_ne_nil hword)
    rw [written_parameter]
    exact Spelling.trimmed_writeType _ (trimmed_parameter hname hword htext) (hne _)
  | text hname =>
    rw [written_typed hname]
    exact Spelling.trimmed_writeType _ htext fun h => hne (String.toList_eq_nil_iff.mp h)

/-- Of a type with braces something is left, and shows in the name or in the text. -/
theorem ofText_written_ne (hclose : '\x7d' ∈ type) :
    ofText t.name (trim (t.written { type := some type })) ≠ t := by
  rw [(trimmed_written ht htext hne type).trim_eq]
  cases ht with
  | @parameter name text hname hword =>
    have hne : text ≠ "" := hne
    have hwritten : (Tag.parameter name text).written { type := some type } =
        '\x7b' :: type ++ ['\x7d'] ++ parameterEnd name.toList text.toList := by
      rw [written_parameter]
      simp [Spelling.writeType, NameStyle.write, dash, hne, parameterEnd]
    obtain ⟨left, hleft⟩ := dropType_of_close hclose (parameterEnd name.toList text.toList)
    have hdrop : dropType ('\x7b' :: type ++ ['\x7d'] ++ parameterEnd name.toList text.toList) =
        (left ++ ['\x7d']) ++ parameterEnd name.toList text.toList := by
      rw [hleft, List.append_assoc, List.singleton_append]
    rw [hwritten]
    exact readParameter_ne hword.2.1 hword.1 hdrop
  | @text name text hname =>
    have hwritten : (Tag.plain name text).written { type := some type } =
        '\x7b' :: type ++ ['\x7d'] ++ ' ' :: text.toList := by
      rw [written_typed hname]
      simp [Spelling.writeType]
    obtain ⟨left, hleft⟩ := dropType_of_close hclose (' ' :: text.toList)
    rw [hwritten]
    show ofText name _ ≠ _
    rw [ofText, if_neg (ne_param_of_typed hname), if_pos hname, hleft]
    -- the closing brace at least is too much
    intro heq
    have htexts : trim (left ++ '\x7d' :: ' ' :: text.toList) = text.toList := by
      simpa [plain, ← String.toList_inj] using heq
    have hink := congrArg ink htexts
    have hspace : ink (' ' :: text.toList) = ink text.toList := List.countP_cons_of_neg (by decide)
    rw [ink_trim, ink_append, ink_cons rfl, hspace] at hink
    omega

theorem ofText_written_iff (hline : '\n' ∉ type) :
    ofText t.name (trim (t.written { type := some type })) = t ↔ '\x7d' ∉ type :=
  ⟨fun heq hclose => ofText_written_ne ht htext hne type hclose heq,
    fun hclose => ofText_written_of_no_close ht htext hclose hline⟩

end Text

end TakesType

end Tag

/-! ## 5. Comments -/

theorem StartsTag.trimEnd {l : List Char} (h : StartsTag l) : StartsTag (trimEnd l) := by
  obtain ⟨c, r, rfl, hc⟩ := h
  have hword : isWordChar c := hc.elim isWordChar_of_isAlpha fun h => h ▸ rfl
  refine ⟨c, Text.trimEnd r, ?_, hc⟩
  show Text.trimEnd (['@', c] ++ r) = ['@', c] ++ Text.trimEnd r
  apply Text.trimEnd_append
  intro d hd
  obtain rfl : c = d := Option.some.inj hd
  exact isBlank_of_isWordChar hword

section Line

variable {t : Tag} {type : List Char} {before after : List (List Char)}

/-- The tags before the line and behind it are read without it. -/
theorem tags_ofLines_typedLine (ht : t.TakesType) (htext : Trimmed t.text.toList)
    (hne : t.text ≠ "") (hafter : ∀ l ∈ after.head?, StartsTag l) :
    (ofLines ((before ++ t.typedLine type :: after).map trimEnd)).tags =
      (ofLines (before.map trimEnd)).tags ++
        Tag.ofText t.name (trim (t.written { type := some type })) ::
          (ofLines (after.map trimEnd)).tags := by
  have hwritten := ht.trimmed_written htext hne type
  -- no end of the line is blank, so that trimming leaves it as it is
  have hline : Trimmed (t.typedLine type) := by
    have hat : Trimmed ['@'] := ⟨by decide, by decide⟩
    have hne : t.written { type := some type } ≠ [] := by
      obtain ⟨rest, hrest⟩ := ht.written_prefix type
      rw [hrest]
      exact List.cons_ne_nil _ _
    have haround := hat.around (List.cons_ne_nil _ _) hwritten hne (t.name.toList ++ [' '])
    simpa [Tag.typedLine] using haround
  have htag : tagLine? (trimEnd (t.typedLine type)) =
      some (t.name.toList, trimStart (' ' :: t.written { type := some type })) := by
    rw [trimEnd_eq_self hline.last]
    apply ht.isTagName.tagLine?
    intro c hc
    obtain rfl : ' ' = c := Option.some.inj hc
    rfl
  have hread : readTag t.name.toList [trimStart (' ' :: t.written { type := some type })] =
      Tag.ofText t.name (trim (t.written { type := some type })) := by
    have hspace : ∀ c ∈ [' '], isBlank c := by decide
    rw [readTag_eq_ofText]
    show Tag.ofText t.name (trim (trim (trimStart ([' '] ++ t.written _)))) = _
    rw [trim_trim, trimStart_blanks_append hspace, trim_trimStart]
  have hstarts : ∀ l ∈ (after.map trimEnd).head?, StartsTag l := by
    intro l hl
    rw [List.head?_map, Option.mem_def, Option.map_eq_some_iff] at hl
    obtain ⟨l', hl', rfl⟩ := hl
    exact (hafter l' hl').trimEnd
  rw [List.map_append, List.map_cons, ← hread, tags_ofLines, tags_ofLines, tags_ofLines,
    sections_append_tag htag, sections_of_startsTag hstarts, List.map_append, List.map_cons]

/-- A tag with a type is read as the tag if and only if there are no braces in the type. -/
theorem tags_typedLine_eq_iff (ht : t.TakesType) (htext : Trimmed t.text.toList)
    (hne : t.text ≠ "") (htype : Balanced type) (hline : '\n' ∉ t.typedLine type)
    (hbefore : ∀ l ∈ before, '\n' ∉ l) (hafter : ∀ l ∈ after, '\n' ∉ l)
    (hnext : ∀ l ∈ after.head?, StartsTag l) :
    (parse (String.ofList (block (before ++ t.typedLine type :: after)))).tags =
        (parse (String.ofList (block before))).tags ++
          t :: (parse (String.ofList (block after))).tags ↔
      '\x7b' ∉ type := by
  have hlines : ∀ l ∈ before ++ t.typedLine type :: after, '\n' ∉ l := by
    simp only [List.forall_mem_append, List.forall_mem_cons]
    exact ⟨hbefore, hline, hafter⟩
  have hbreak : '\n' ∉ type := by
    obtain ⟨rest, hrest⟩ := ht.written_prefix type
    exact fun h => hline (by simp [Tag.typedLine, hrest, h])
  rw [parse_block hlines, parse_block hbefore, parse_block hafter,
    tags_ofLines_typedLine ht htext hne hnext, List.append_cancel_left_eq, List.cons.injEq,
    and_iff_left rfl, ht.ofText_written_iff htext hne type hbreak, htype.close_mem_iff]

end Line

/-- A type that is a name, and an array of records in records. -/
theorem tags_typedLine_eq_iff_size :
    let size := Tag.parameter "size" "in pixels"
    let records := "Array<\x7bx: \x7by: number\x7d\x7d>".toList
    let comment (type : List Char) :=
      String.ofList (block (["Opens.".toList] ++ size.typedLine type :: ["@internal".toList]))
    comment records = "/**\n * Opens.\n" ++
        " * @param \x7bArray<\x7bx: \x7by: number\x7d\x7d>\x7d size - in pixels\n" ++
        " * @internal\n */" ∧
      (parse (comment "number".toList)).tags = [size, .plain "internal" ""] ∧
      (parse (comment records)).tags ≠ [size, .plain "internal" ""] := by
  intro size records comment
  have htakes : size.TakesType :=
    .parameter ⟨by decide, by decide, by decide⟩ ⟨by decide, by decide, by decide⟩
  have hrecords : Balanced records := by
    have hparts : records = "Array<".toList ++ ('\x7b' :: ("x: ".toList ++
        ('\x7b' :: "y: number".toList ++ '\x7d' :: [])) ++ '\x7d' :: ">".toList) := by decide
    rw [hparts]
    exact (((Balanced.of_noBraces (by decide)).braces .nil).append_left (by decide)).braces
      (.of_noBraces (by decide)) |>.append_left (by decide)
  have hread {type : List Char} (htype : Balanced type) (hline : '\n' ∉ size.typedLine type) :=
    @tags_typedLine_eq_iff size type ["Opens.".toList] ["@internal".toList] htakes
      ⟨by decide, by decide⟩ (by decide) htype hline (by decide) (by decide) (by decide)
  refine ⟨by decide +kernel, ?_, ?_⟩
  · exact (hread (.of_noBraces (by decide)) (by decide)).mpr (by decide)
  · exact fun h => (hread hrecords (by decide)).mp h (by decide)

/-- What is left of a type with braces of its own is taken for the name of the parameter, or stays
in the text. -/
theorem parse_recordType :
    Balanced "\x7ba: string\x7d".toList ∧
      parse "/**\n * @param \x7b\x7ba: string\x7d\x7d n - t\n */" =
        { tags := [.parameter "\x7d" "n - t"] } ∧
      parse "/**\n * @returns \x7b\x7ba: string\x7d\x7d t\n */" =
        { tags := [.plain "returns" "\x7d t"] } ∧
      parse "/**\n * @param \x7b\x7ba: string\x7d\x7d n - t\n */" ≠
        { tags := [.parameter "n" "t"] } ∧
      parse "/**\n * @returns \x7b\x7ba: string\x7d\x7d t\n */" ≠
        { tags := [.plain "returns" "t"] } := by
  have hrecord : "\x7ba: string\x7d".toList = '\x7b' :: "a: string".toList ++ '\x7d' :: [] := by
    decide
  refine ⟨?balanced, by decide, by decide, by decide, by decide⟩
  rw [hrecord]
  exact (Balanced.of_noBraces (by decide)).braces .nil

end Doc
end MarkupCatalog

import MarkupCatalog.Proofs.CommentLayouts

/-!
# Documentation as comments

How documentation is written as a comment: the lines of the summary, and then each block tag with
its text.  A tag may be spelled in several ways, with a type in braces and with brackets around the
name of a parameter.  The main statement is that a comment is read as the documentation that it was
written from, whatever the spelling.
-/

namespace MarkupCatalog.Doc

open Text

/-! ## 1. Well-formed documentation -/

/-- A line that would start a block tag. -/
def StartsTag (l : List Char) : Prop := ∃ c r, l = '@' :: c :: r ∧ (c.isAlpha ∨ c = '_')

theorem tagLine?_eq_none_iff (l : List Char) : tagLine? l = none ↔ ¬ StartsTag l := by
  unfold tagLine?
  split
  next c r =>
    by_cases hc : (c.isAlpha || c == '_') = true
    · have hstarts : StartsTag ('@' :: c :: r) := ⟨c, r, rfl, by simpa using hc⟩
      simp [hc, hstarts]
    · have hstarts : ¬ StartsTag ('@' :: c :: r) := by
        rintro ⟨c', r', heq, hc'⟩
        cases heq
        exact hc (by simpa using hc')
      simp [hc, hstarts]
  next hother =>
    refine iff_of_true rfl ?_
    rintro ⟨c, r, rfl, -⟩
    exact hother c r rfl

instance (l : List Char) : Decidable (StartsTag l) :=
  decidable_of_iff (tagLine? l ≠ none) (by rw [Ne, tagLine?_eq_none_iff, not_not])

/-- A text that can be a summary. -/
structure IsSummary (s : List Char) : Prop where
  nonempty : s ≠ []
  trimmed : Trimmed s
  lineEnds : ∀ l ∈ split '\n' s, ∀ c ∈ l.getLast?, isBlank c = false
  noTag : ∀ l ∈ split '\n' s, ¬ StartsTag l

/-- A letter or an underscore, and word characters. -/
def IsTagName (s : List Char) : Prop :=
  ∃ c r, s = c :: r ∧ (c.isAlpha ∨ c = '_') ∧ ∀ d ∈ r, isWordChar d

/-- A text that can stand behind the name of a tag. -/
structure IsTagText (s : List Char) : Prop where
  trimmed : Trimmed s
  lines : ∀ l ∈ split '\n' s, Trimmed l
  noTag : ∀ l ∈ (split '\n' s).tail, ¬ StartsTag l

/-- A text that can be the name of a parameter. -/
structure IsParameterName (s : List Char) : Prop where
  trimmed : Trimmed s
  noDefault : '=' ∉ s
  noBracket : s.head? ≠ some '['

def Tag.text (t : Tag) : String :=
  match t.body with
  | .parameter _ text => text
  | .text text => text

structure Tag.WellFormed (t : Tag) : Prop where
  name : IsTagName t.name.toList
  isParameter : (∃ name text, t.body = .parameter name text) ↔ t.name = "param"
  parameterName : ∀ name text, t.body = .parameter name text → IsParameterName name.toList
  text : IsTagText t.text.toList

structure WellFormed (d : Doc) : Prop where
  summary : ∀ s, d.summary = some s → IsSummary s.toList
  tags : ∀ t ∈ d.tags, t.WellFormed

/-! ## 2. Spellings -/

/-- How the name of a parameter is written: as it is, or in brackets, where a default may follow. -/
inductive NameStyle where
  | bare
  | bracketed (default : Option (List Char))

def withDefault (name : List Char) : Option (List Char) → List Char
  | none => name
  | some value => name ++ '=' :: value

def NameStyle.write (name : List Char) : NameStyle → List Char
  | .bare => name
  | .bracketed default => '[' :: withDefault name default ++ [']']

/-- A bare name is a word, and brackets close on their line and where they are meant to. -/
def NameStyle.Fits (name : List Char) : NameStyle → Prop
  | .bare => name ≠ [] ∧ (∀ c ∈ name, isBlank c = false) ∧ name.getLast? ≠ some ']'
  | .bracketed default => ']' ∉ withDefault name default ∧ '\n' ∉ withDefault name default

/-- How a tag is written where there is a choice. -/
structure Spelling where
  type : Option (List Char) := none
  name : NameStyle := .bare

def Spelling.writeType (s : Spelling) : List Char :=
  match s.type with
  | none => []
  | some type => '\x7b' :: type ++ ['\x7d'] ++ [' ']

/-- What stands between the name of a parameter and its text. -/
def dash (text : String) : List Char := if text = "" then [] else [' ', '-', ' ']

/-- What stands between the name of a tag and its text. -/
def Tag.lead (t : Tag) (s : Spelling) : List Char :=
  match t.body with
  | .parameter name text => s.writeType ++ s.name.write name.toList ++ dash text
  | .text _ => if t.name ∈ typedTags then s.writeType else []

def Tag.written (t : Tag) (s : Spelling) : List Char := t.lead s ++ t.text.toList

/-- The text starts with a type in braces. -/
def OpensWithType (s : List Char) : Prop :=
  ∃ type rest, '\x7d' ∉ type ∧ s = '\x7b' :: type ++ '\x7d' :: rest

/-- A tag can be spelled so that its parts are told apart. -/
structure Tag.Fits (t : Tag) (s : Spelling) : Prop where
  type : ∀ type ∈ s.type, '\x7d' ∉ type ∧ '\n' ∉ type
  name : ∀ name text, t.body = .parameter name text → s.name.Fits name.toList
  untyped : s.type = none → t.name = "param" ∨ t.name ∈ typedTags → ¬ OpensWithType (t.written s)

def Tag.lines (t : Tag) (s : Spelling) : List (List Char) :=
  split '\n' ('@' :: t.name.toList ++ ' ' :: t.written s)

def summaryLines (d : Doc) : List (List Char) :=
  match d.summary with
  | none => []
  | some s => split '\n' s.toList

/-- The comment in which the tags have these spellings. -/
def render (d : Doc) (spellings : List Spelling) : String :=
  String.ofList (block (d.summaryLines ++ (List.zipWith Tag.lines d.tags spellings).flatten))

/-! ## 3. Reading the text of a tag -/

/-- The tag with a name and a text. -/
def Tag.ofText (name : String) (text : List Char) : Tag :=
  if name = "param" then readParameter text
  else if name ∈ typedTags then .plain name (String.ofList (trim (dropType text)))
  else .plain name (String.ofList text)

theorem readTag_eq_ofText (name : String) (lines : List (List Char)) :
    readTag name.toList lines = Tag.ofText name (trim (join ['\n'] (lines.map trim))) := by
  unfold readTag
  rw [String.ofList_toList]
  rfl

theorem dropType_of_type {type : List Char} (htype : '\x7d' ∉ type) (rest : List Char) :
    dropType ('\x7b' :: type ++ ['\x7d'] ++ rest) = trimStart rest := by
  rw [List.cons_append, List.cons_append, List.append_assoc, List.singleton_append, dropType,
    dropWhile_ne_append htype]

theorem dropType_of_not_opens {s : List Char} (h : ¬ OpensWithType s) : dropType s = s := by
  unfold dropType
  split
  next r =>
    split
    next c t hdrop =>
      -- what stands before the closing brace would be a type
      refine absurd ⟨r.takeWhile (· ≠ '\x7d'), t, ?_, ?_⟩ h
      · intro hmem
        have := List.mem_takeWhile_imp hmem
        simp at this
      · have hc : c = '\x7d' := by
          have := List.head?_dropWhile_not (fun x => decide (x ≠ '\x7d')) r
          rw [hdrop] at this
          simpa using this
        rw [List.cons_append, ← hc, ← hdrop, hc, List.takeWhile_append_dropWhile]
    next => rfl
  next => rfl

section Names

variable {name rest : List Char}

theorem splitName_of_word (hblank : ∀ c ∈ name, isBlank c = false)
    (hbracket : name.head? ≠ some '[') (hne : name ≠ [])
    (hrest : ∀ c ∈ rest.head?, isBlank c = true) :
    splitName (name ++ rest) = (name, rest) := by
  have hspan : (name ++ rest).span (fun c => !isBlank c) = (name, rest) := by
    apply span_append
    · exact fun c hc => by rw [hblank c hc, Bool.not_false]
    · exact fun c hc => by rw [hrest c hc, Bool.not_true]
  cases name with
  | nil => exact absurd rfl hne
  | cons c name =>
    have hc : c ≠ '[' := fun h => hbracket (congrArg some h)
    unfold splitName
    split
    next r heq => exact absurd (List.cons.inj heq).1 hc
    next => exact hspan

theorem splitName_of_brackets (hclosed : ']' ∉ name) :
    splitName ('[' :: name ++ ']' :: rest) = ('[' :: name ++ [']'], rest) := by
  rw [List.cons_append]
  unfold splitName
  simp only [span_ne_append hclosed]

theorem bareName_of_word (hopen : name.head? ≠ some '[') (hclose : name.getLast? ≠ some ']') :
    bareName name = trim (name.takeWhile (· ≠ '=')) := by
  have hstart : name.dropWhile (· = '[') = name := by
    cases name with
    | nil => rfl
    | cons c name =>
      apply List.dropWhile_cons_of_neg
      simpa using fun h => hopen (congrArg some h)
  have hend : (name.reverse.dropWhile (· = ']')).reverse = name := by
    apply List.rdropWhile_eq_self_iff.mpr
    intro hne
    rw [List.getLast?_eq_some_getLast hne] at hclose
    simpa using hclose
  unfold bareName
  simp only [hstart, hend]

/-- Brackets around a name do not count. -/
theorem bareName_brackets (name : List Char) : bareName ('[' :: name ++ [']']) = bareName name := by
  have hstart : ('[' :: name ++ [']']).dropWhile (· = '[') = name.dropWhile (· = '[') ++ [']'] := by
    rw [List.cons_append, List.dropWhile_cons_of_pos (by decide), List.dropWhile_append]
    split
    next hempty => rw [List.isEmpty_iff.mp hempty]; rfl
    next => rfl
  have hend : (name.dropWhile (· = '[') ++ [']']).rdropWhile (fun c => decide (c = ']')) =
      (name.dropWhile (· = '[')).rdropWhile (fun c => decide (c = ']')) :=
    List.rdropWhile_concat_pos _ _ _ (decide_eq_true rfl)
  unfold bareName
  rw [hstart]
  exact congrArg (fun s => trim (s.takeWhile (· ≠ '='))) hend

theorem takeWhile_withDefault (hname : '=' ∉ name) (default : Option (List Char)) :
    (withDefault name default).takeWhile (· ≠ '=') = name := by
  cases default with
  | none => exact List.takeWhile_eq_self_iff.mpr (forall_ne hname)
  | some value => exact takeWhile_ne_append hname value

theorem head?_withDefault (hopen : name.head? ≠ some '[') (default : Option (List Char)) :
    (withDefault name default).head? ≠ some '[' := by
  cases default with
  | none => exact hopen
  | some value =>
    cases name with
    | nil => simp [withDefault]
    | cons c name => exact hopen

end Names

namespace NameStyle

variable {style : NameStyle} {name : List Char} (hfits : style.Fits name)

include hfits

theorem write_ne_nil : style.write name ≠ [] := by
  cases style with
  | bare => exact hfits.1
  | bracketed default => exact List.cons_ne_nil _ _

theorem write_noBreak : '\n' ∉ style.write name := by
  cases style with
  | bare => exact fun h => absurd (hfits.2.1 _ h) (by decide)
  | bracketed default =>
    have hinside := hfits.2
    simp [write, hinside]

variable (hname : IsParameterName name)

include hname

theorem trimmed_write : Trimmed (style.write name) := by
  cases style with
  | bare => exact hname.trimmed
  | bracketed default =>
    have hopen : Trimmed ['['] := ⟨by decide, by decide⟩
    have hclose : Trimmed [']'] := ⟨by decide, by decide⟩
    exact hopen.around (List.cons_ne_nil _ _) hclose (List.cons_ne_nil _ _) _

theorem splitName_write {rest : List Char} (hrest : ∀ c ∈ rest.head?, isBlank c = true) :
    splitName (style.write name ++ rest) = (style.write name, rest) := by
  cases style with
  | bare => exact splitName_of_word hfits.2.1 hname.noBracket hfits.1 hrest
  | bracketed default =>
    rw [write, List.append_assoc]
    exact splitName_of_brackets hfits.1

theorem bareName_write : bareName (style.write name) = name := by
  cases style with
  | bare =>
    have hwhole : name.takeWhile (· ≠ '=') = name := takeWhile_withDefault hname.noDefault none
    rw [write, bareName_of_word hname.noBracket hfits.2.2, hwhole, hname.trimmed.trim_eq]
  | bracketed default =>
    have hclose : (withDefault name default).getLast? ≠ some ']' :=
      fun h => hfits.1 (List.mem_of_getLast? h)
    rw [write, bareName_brackets,
      bareName_of_word (head?_withDefault hname.noBracket default) hclose,
      takeWhile_withDefault hname.noDefault, hname.trimmed.trim_eq]

end NameStyle

/-! ## 4. Tags -/

theorem trim_dropDash {text : String} (htext : Trimmed text.toList) :
    trim (dropDash (trimStart (dash text ++ text.toList))) = text.toList := by
  unfold dash
  by_cases hempty : text = ""
  · rw [if_pos hempty, hempty]
    rfl
  · rw [if_neg hempty]
    show trim (dropDash ('-' :: ' ' :: text.toList)) = _
    have hdash : dropDash ('-' :: ' ' :: text.toList) = trimStart text.toList := rfl
    rw [hdash, trim_trimStart, htext.trim_eq]

section Parameter

variable {name text : String} {style : NameStyle} (hname : IsParameterName name.toList)
  (hfits : style.Fits name.toList) (htext : Trimmed text.toList)

include hname hfits htext

theorem readParameter_of_dropType {s : List Char}
    (h : dropType s = style.write name.toList ++ (dash text ++ text.toList)) :
    readParameter s = .parameter name text := by
  have hrest : ∀ c ∈ (dash text ++ text.toList).head?, isBlank c = true := by
    unfold dash
    by_cases hempty : text = ""
    · rw [hempty]
      nofun
    · rw [if_neg hempty]
      exact fun c hc => Option.some.inj hc ▸ rfl
  unfold readParameter
  rw [h, NameStyle.splitName_write hfits hname hrest]
  show Tag.parameter _ _ = _
  rw [NameStyle.bareName_write hfits hname, trim_dropDash htext, String.ofList_toList,
    String.ofList_toList]

theorem trimmed_parameter :
    Trimmed (style.write name.toList ++ (dash text ++ text.toList)) := by
  have hwritten := NameStyle.trimmed_write hfits hname
  unfold dash
  by_cases hempty : text = ""
  · rw [hempty]
    exact hwritten.append .nil
  · have hne : text.toList ≠ [] := fun h => hempty (String.toList_eq_nil_iff.mp h)
    rw [if_neg hempty, ← List.append_assoc]
    exact hwritten.around (NameStyle.write_ne_nil hfits) htext hne _

end Parameter

namespace Spelling

variable {s : Spelling} (hs : ∀ type ∈ s.type, '\x7d' ∉ type ∧ '\n' ∉ type)

include hs

theorem dropType_writeType {rest : List Char} (hrest : ∀ c ∈ rest.head?, isBlank c = false)
    (huntyped : s.type = none → ¬ OpensWithType rest) : dropType (s.writeType ++ rest) = rest := by
  unfold writeType
  cases htype : s.type with
  | none => exact dropType_of_not_opens (huntyped htype)
  | some type =>
    show dropType ('\x7b' :: type ++ ['\x7d'] ++ [' '] ++ rest) = rest
    rw [List.append_assoc _ [' '], dropType_of_type (hs type htype).1]
    exact trimStart_eq_self hrest

theorem dropType_trim_writeType : dropType (trim s.writeType) = [] := by
  unfold writeType
  cases htype : s.type with
  | none => rfl
  | some type =>
    have hopen : Trimmed ['\x7b'] := ⟨by decide, by decide⟩
    have hclose : Trimmed ['\x7d'] := ⟨by decide, by decide⟩
    have hbraces : Trimmed ('\x7b' :: type ++ ['\x7d']) :=
      hopen.around (List.cons_ne_nil _ _) hclose (List.cons_ne_nil _ _) type
    show dropType (trim ('\x7b' :: type ++ ['\x7d'] ++ [' '])) = []
    rw [trim_append_blanks (by decide), hbraces.trim_eq, ← List.append_nil ('\x7b' :: type ++ _),
      dropType_of_type (hs type htype).1]
    rfl

theorem writeType_noBreak : '\n' ∉ s.writeType := by
  unfold writeType
  cases htype : s.type with
  | none => exact List.not_mem_nil
  | some type =>
    have hbreak := (hs type htype).2
    simp [hbreak]

end Spelling

theorem Spelling.writeType_none (s : Spelling) (htype : s.type = none) : s.writeType = [] := by
  rw [writeType, htype]

theorem Spelling.trimmed_writeType (s : Spelling) {rest : List Char} (hrest : Trimmed rest)
    (hne : rest ≠ []) : Trimmed (s.writeType ++ rest) := by
  unfold writeType
  cases s.type with
  | none => exact hrest
  | some type =>
    have hopen : Trimmed ['\x7b'] := ⟨by decide, by decide⟩
    have hinside := hopen.around (List.cons_ne_nil _ _) hrest hne (type ++ ['\x7d'] ++ [' '])
    simpa using hinside

namespace Tag

variable {name text : String} {s : Spelling}

theorem written_parameter (name text : String) (s : Spelling) :
    (Tag.parameter name text).written s =
      s.writeType ++ (s.name.write name.toList ++ (dash text ++ text.toList)) := by
  simp only [parameter, written, lead, Tag.text, List.append_assoc]

theorem ofText_written_parameter (hname : IsParameterName name.toList)
    (htext : Trimmed text.toList) (hs : (Tag.parameter name text).Fits s) :
    ofText "param" (trim ((Tag.parameter name text).written s)) = .parameter name text := by
  have hfits := hs.name name text rfl
  have hrest := trimmed_parameter hname hfits htext
  have hne : s.name.write name.toList ++ (dash text ++ text.toList) ≠ [] :=
    List.append_ne_nil_of_left_ne_nil (NameStyle.write_ne_nil hfits) _
  have huntyped (htype : s.type = none) :
      ¬ OpensWithType (s.name.write name.toList ++ (dash text ++ text.toList)) := by
    have hopens := hs.untyped htype (.inl rfl)
    rwa [written_parameter, s.writeType_none htype] at hopens
  rw [written_parameter, (s.trimmed_writeType hrest hne).trim_eq]
  show readParameter _ = _
  exact readParameter_of_dropType hname hfits htext
    (Spelling.dropType_writeType hs.type hrest.first huntyped)

theorem ofText_written_text (hparam : name ≠ "param") (htext : Trimmed text.toList)
    (hs : (Tag.plain name text).Fits s) :
    ofText name (trim ((Tag.plain name text).written s)) = .plain name text := by
  have hwritten : (Tag.plain name text).written s =
      (if name ∈ typedTags then s.writeType else []) ++ text.toList := rfl
  have hopens (htyped : name ∈ typedTags) (htype : s.type = none) :
      ¬ OpensWithType text.toList := by
    have hopens := hs.untyped htype (.inr htyped)
    rwa [hwritten, if_pos htyped, s.writeType_none htype] at hopens
  rw [hwritten, ofText, if_neg hparam]
  by_cases htyped : name ∈ typedTags
  · have hdrop : trim (dropType (trim (s.writeType ++ text.toList))) = text.toList := by
      have hopens := hopens htyped
      cases htoList : text.toList with
      | nil =>
        -- the blank behind the type is trimmed before the type is dropped
        rw [List.append_nil, Spelling.dropType_trim_writeType hs.type]
        rfl
      | cons c r =>
        rw [htoList] at htext hopens
        rw [(s.trimmed_writeType htext (List.cons_ne_nil _ _)).trim_eq,
          Spelling.dropType_writeType hs.type htext.first hopens, htext.trim_eq]
    rw [if_pos htyped, if_pos htyped, hdrop, String.ofList_toList]
  · rw [if_neg htyped, if_neg htyped, List.nil_append, htext.trim_eq, String.ofList_toList]

/-- The text of a tag is read as the tag. -/
theorem ofText_written {t : Tag} (ht : t.WellFormed) (hs : t.Fits s) :
    ofText t.name (trim (t.written s)) = t := by
  obtain ⟨tagName, body⟩ := t
  cases body with
  | parameter name text =>
    obtain rfl : tagName = "param" := ht.isParameter.mp ⟨name, text, rfl⟩
    exact ofText_written_parameter (ht.parameterName name text rfl) ht.text.trimmed hs
  | text text =>
    have hparam : tagName ≠ "param" := by
      intro h
      obtain ⟨_, _, hbody⟩ := ht.isParameter.mpr h
      cases hbody
    exact ofText_written_text hparam ht.text.trimmed hs

end Tag

/-! ## 5. Lines -/

namespace IsTagName

variable {name : List Char} (hname : IsTagName name)

include hname

theorem isWordChar : ∀ c ∈ name, isWordChar c := by
  obtain ⟨c, r, rfl, hc, hr⟩ := hname
  have hfirst : Text.isWordChar c := hc.elim isWordChar_of_isAlpha fun h => h ▸ rfl
  intro d hd
  exact (List.mem_cons.mp hd).elim (fun h => h ▸ hfirst) (hr d)

theorem trimEnd_append (rest : List Char) :
    trimEnd ('@' :: name ++ rest) = '@' :: name ++ trimEnd rest := by
  apply Text.trimEnd_append
  intro c hc
  rcases List.mem_cons.mp (List.mem_of_getLast? hc) with rfl | hmem
  · rfl
  · exact isBlank_of_isWordChar (hname.isWordChar c hmem)

theorem noBreak : '\n' ∉ name :=
  fun h => absurd (isBlank_of_isWordChar (hname.isWordChar _ h)) (by decide)

theorem tagLine? {rest : List Char} (hrest : ∀ c ∈ rest.head?, Text.isWordChar c = false) :
    tagLine? ('@' :: name ++ rest) = some (name, trimStart rest) := by
  obtain ⟨c, r, rfl, hc, hr⟩ := hname
  have hletter : (c.isAlpha || c == '_') = true := by simpa using hc
  have hspan : (r ++ rest).span Text.isWordChar = (r, rest) := span_append hr hrest
  unfold Doc.tagLine?
  simp only [List.cons_append, hletter, hspan, if_true]

end IsTagName

theorem sections_append {ls : List (List Char)} (h : ∀ l ∈ ls, ¬ StartsTag l)
    (rest : List (List Char)) :
    sections (ls ++ rest) = (ls ++ (sections rest).1, (sections rest).2) := by
  induction ls with
  | nil => rfl
  | cons l ls ih =>
    have hl := (tagLine?_eq_none_iff l).mpr (h l List.mem_cons_self)
    rw [List.cons_append, sections, ih fun l hl => h l (List.mem_cons_of_mem _ hl), hl]
    rfl

theorem sections_of_startsTag {ls : List (List Char)} (h : ∀ l ∈ ls.head?, StartsTag l) :
    (sections ls).1 = [] := by
  cases ls with
  | nil => rfl
  | cons l ls =>
    cases htag : tagLine? l with
    | none => exact absurd (h l rfl) ((tagLine?_eq_none_iff l).mp htag)
    | some header => rw [sections, htag]

/-- A tag does not change what is read before it. -/
theorem sections_append_tag {l name rest : List Char} (hl : tagLine? l = some (name, rest))
    (before after : List (List Char)) :
    sections (before ++ l :: after) =
      ((sections before).1,
        (sections before).2 ++ (name, rest :: (sections after).1) :: (sections after).2) := by
  -- sections are read from the last line on, so that the induction is on what stands before
  induction before with
  | nil =>
    rw [List.nil_append, sections, sections, hl]
    rfl
  | cons l' before ih =>
    rw [List.cons_append, sections, ih, sections]
    cases tagLine? l' <;> rfl

namespace Tag

variable {t : Tag} {s : Spelling} (hs : t.Fits s)

include hs

theorem lead_noBreak : '\n' ∉ t.lead s := by
  have htype := Spelling.writeType_noBreak hs.type
  unfold lead
  split
  next name text hbody =>
    have hname := NameStyle.write_noBreak (hs.name name text hbody)
    have hdash : '\n' ∉ dash text := by
      unfold dash
      split <;> decide
    simp [htype, hname, hdash]
  next =>
    split
    next => exact htype
    next => exact List.not_mem_nil

variable (ht : t.WellFormed)

include ht

theorem lead_first : ∀ c ∈ (t.lead s).head?, isBlank c = false := by
  unfold lead
  split
  next name text hbody =>
    have hfits := hs.name name text hbody
    have hne := NameStyle.write_ne_nil hfits
    have hname := NameStyle.trimmed_write hfits (ht.parameterName name text hbody)
    rw [List.head?_append_of_ne_nil _ (List.append_ne_nil_of_right_ne_nil _ hne)]
    exact (s.trimmed_writeType hname hne).first
  next =>
    split
    next =>
      unfold Spelling.writeType
      cases s.type with
      | none => nofun
      | some type =>
        intro c hc
        obtain rfl : '\x7b' = c := Option.some.inj hc
        rfl
    next => nofun

/-- A tag has its name, what leads its text and the first line of the text on one line, and the rest
of the text on lines of their own. -/
theorem lines_eq {first : List Char} {others : List (List Char)}
    (htext : split '\n' t.text.toList = first :: others) :
    t.lines s = ('@' :: t.name.toList ++ ' ' :: (t.lead s ++ first)) :: others := by
  -- there is no break before the text, so that its first line takes in all of that
  have hbreak : '\n' ∉ '@' :: t.name.toList ++ ' ' :: t.lead s := by
    have hname := ht.name.noBreak
    have hlead := lead_noBreak hs
    simp [hname, hlead]
  have hsplit := split_append_of_not_mem hbreak htext
  unfold lines written
  simpa using hsplit

theorem trimmed_lead_append {first : List Char} (hfirst : Trimmed first) (hne : first ≠ []) :
    Trimmed (t.lead s ++ first) := by
  cases hlead : t.lead s with
  | nil => exact hfirst
  | cons c r =>
    have hc : isBlank c = false := lead_first hs ht c (by rw [hlead]; rfl)
    have hstart : Trimmed [c] := ⟨fun d hd => Option.some.inj hd ▸ hc,
      fun d hd => Option.some.inj hd ▸ hc⟩
    exact hstart.around (List.cons_ne_nil _ _) hfirst hne r

theorem text_of_lines {first : List Char} {others : List (List Char)}
    (htext : split '\n' t.text.toList = first :: others) :
    trim (join ['\n']
        ((trimStart (trimEnd (' ' :: (t.lead s ++ first))) :: others.map trimEnd).map trim)) =
      trim (t.written s) := by
  have hjoin : join ['\n'] (first :: others) = t.text.toList := by rw [← htext, join_split]
  have hheader : trim (trimStart (trimEnd (' ' :: (t.lead s ++ first)))) =
      trim (t.lead s ++ first) := by
    have hspace : ∀ c ∈ [' '], isBlank c := by decide
    rw [trim_trimStart, trim_trimEnd]
    exact trim_blanks_append hspace _
  have htrimmed : ∀ l ∈ first :: others, Trimmed l := htext ▸ ht.text.lines
  have hothers : (others.map trimEnd).map trim = others := by
    rw [List.map_map]
    refine (List.map_congr_left fun l hl => ?_).trans (List.map_id others)
    have hl := htrimmed l (List.mem_cons_of_mem _ hl)
    show trim (trimEnd l) = l
    rw [trim_trimEnd, hl.trim_eq]
  rw [List.map_cons, hheader, hothers]
  cases others with
  | nil =>
    rw [written, ← hjoin]
    exact trim_trim _
  | cons l others =>
    -- a text that is trimmed does not start with a line break
    have hne : first ≠ [] := by
      rintro rfl
      have hblank := ht.text.trimmed.first '\n' (by rw [← hjoin]; rfl)
      exact absurd hblank (by decide)
    have hfirst := trimmed_lead_append hs ht (htrimmed first List.mem_cons_self) hne
    rw [hfirst.trim_eq, join_cons (List.cons_ne_nil _ _), written, ← hjoin,
      join_cons (List.cons_ne_nil _ _)]
    simp only [List.append_assoc]

/-- The lines of a tag are a section of their own. -/
theorem sections_lines (rest : List (List Char)) (hrest : (sections rest).1 = []) :
    ∃ lines, sections ((t.lines s).map trimEnd ++ rest) =
        ([], (t.name.toList, lines) :: (sections rest).2) ∧
      readTag t.name.toList lines = t := by
  obtain ⟨first, others, htext⟩ := List.exists_cons_of_ne_nil (split_ne_nil '\n' t.text.toList)
  -- the blank behind the name ends it, unless it has been trimmed and the line ends there
  have hblank : ∀ c ∈ (trimEnd (' ' :: (t.lead s ++ first))).head?, isWordChar c = false := by
    intro c hc
    obtain ⟨b, hb, -⟩ := trimEnd_append_rest (' ' :: (t.lead s ++ first))
    have hspace := congrArg List.head? hb
    rw [List.head?_append, Option.mem_def.mp hc] at hspace
    obtain rfl : ' ' = c := Option.some.inj hspace
    rfl
  have hheader : tagLine? (trimEnd ('@' :: t.name.toList ++ ' ' :: (t.lead s ++ first))) =
      some (t.name.toList, trimStart (trimEnd (' ' :: (t.lead s ++ first)))) := by
    rw [ht.name.trimEnd_append, ht.name.tagLine? hblank]
  have hothers : others.map trimEnd = others := by
    refine (List.map_congr_left fun l hl => ?_).trans (List.map_id others)
    exact trimEnd_eq_self (ht.text.lines l (htext ▸ List.mem_cons_of_mem _ hl)).last
  have hnoTag : ∀ l ∈ others, ¬ StartsTag l := by
    have hnoTag := ht.text.noTag
    rwa [htext] at hnoTag
  refine ⟨trimStart (trimEnd (' ' :: (t.lead s ++ first))) :: others, ?_, ?_⟩
  · rw [lines_eq hs ht htext, List.map_cons, hothers, List.cons_append, sections,
      sections_append hnoTag, hrest, hheader, List.append_nil]
  · have hread := text_of_lines hs ht htext
    rw [hothers] at hread
    rw [readTag_eq_ofText, hread, ofText_written ht hs]

end Tag

/-! ## 6. Comments -/

/-- The lines of the tags are read as the tags. -/
theorem sections_tags {tags : List Tag} {spellings : List Spelling}
    (hs : List.Forall₂ Tag.Fits tags spellings) (ht : ∀ t ∈ tags, t.WellFormed) :
    ∃ entries,
      sections ((List.zipWith Tag.lines tags spellings).flatten.map trimEnd) = ([], entries) ∧
      entries.map (fun e => readTag e.1 e.2) = tags := by
  -- the lines behind a tag start with the next one, so that no other line falls to this tag
  induction hs with
  | nil => exact ⟨[], rfl, rfl⟩
  | @cons t s tags spellings hts _ ih =>
    obtain ⟨entries, hsections, hread⟩ := ih fun t ht' => ht t (List.mem_cons_of_mem _ ht')
    obtain ⟨lines, hlines, htag⟩ := Tag.sections_lines hts (ht t List.mem_cons_self) _
      (congrArg Prod.fst hsections)
    refine ⟨(t.name.toList, lines) :: entries, ?_, ?_⟩
    · rw [List.zipWith_cons_cons, List.flatten_cons, List.map_append, hlines, hsections]
    · rw [List.map_cons, hread, htag]

theorem WellFormed.summaryLines {d : Doc} (hd : d.WellFormed) {l : List Char}
    (hl : l ∈ d.summaryLines) : trimEnd l = l ∧ ¬ StartsTag l ∧ '\n' ∉ l := by
  unfold Doc.summaryLines at hl
  cases hsummary : d.summary with
  | none =>
    rw [hsummary] at hl
    exact absurd hl List.not_mem_nil
  | some s =>
    rw [hsummary] at hl
    have hs := hd.summary s hsummary
    exact ⟨trimEnd_eq_self (hs.lineEnds l hl), hs.noTag l hl, not_mem_of_mem_split hl⟩

theorem ofSummary_join_summaryLines {d : Doc} (hd : d.WellFormed) :
    (ofSummary (String.ofList (trim (join ['\n'] d.summaryLines)))).summary = d.summary := by
  unfold summaryLines
  cases hsummary : d.summary with
  | none => rfl
  | some s =>
    have hs := hd.summary s hsummary
    have hempty : s.isEmpty = false := by
      rw [Bool.eq_false_iff, Ne, String.isEmpty_iff, ← String.toList_eq_nil_iff]
      exact hs.nonempty
    show (ofSummary (String.ofList (trim (join ['\n'] (split '\n' s.toList))))).summary = some s
    rw [join_split, hs.trimmed.trim_eq, String.ofList_toList, ofSummary, hempty]
    rfl

theorem ofLines_rendered {d : Doc} {spellings : List Spelling} (hd : d.WellFormed)
    (hs : List.Forall₂ Tag.Fits d.tags spellings) :
    ofLines ((d.summaryLines ++ (List.zipWith Tag.lines d.tags spellings).flatten).map trimEnd) =
      d := by
  obtain ⟨entries, hsections, hread⟩ := sections_tags hs hd.tags
  have hkeep : d.summaryLines.map trimEnd = d.summaryLines := by
    exact (List.map_congr_left fun l hl => (hd.summaryLines hl).1).trans (List.map_id _)
  have hnoTag : ∀ l ∈ d.summaryLines, ¬ StartsTag l := fun l hl => (hd.summaryLines hl).2.1
  have hall : sections ((d.summaryLines ++
      (List.zipWith Tag.lines d.tags spellings).flatten).map trimEnd) =
      (d.summaryLines, entries) := by
    rw [List.map_append, hkeep, sections_append hnoTag, hsections, List.append_nil]
  unfold ofLines
  simp only [hall, ofSummary_join_summaryLines hd, hread]

/-- A comment is read as the documentation that it was written from. -/
theorem parse_render {d : Doc} {spellings : List Spelling} (hd : d.WellFormed)
    (hs : List.Forall₂ Tag.Fits d.tags spellings) : parse (d.render spellings) = d := by
  have hnoBreak : ∀ l ∈ d.summaryLines ++ (List.zipWith Tag.lines d.tags spellings).flatten,
      '\n' ∉ l := by
    intro l hl
    rcases List.mem_append.mp hl with hl | hl
    · exact (hd.summaryLines hl).2.2
    · obtain ⟨ls, hls, hl⟩ := List.mem_flatten.mp hl
      obtain ⟨i, hi, rfl⟩ := List.mem_iff_getElem.mp hls
      rw [List.getElem_zipWith] at hl
      exact not_mem_of_mem_split hl
  unfold render
  rw [parse_block hnoBreak, ofLines_rendered hd hs]

/-- A type and a default in brackets, a text of two lines that has a dash, a text that starts with
braces itself, and a tag without text. -/
theorem parse_render_panel :
    let size := Tag.parameter "size" "in pixels\n- or percent"
    let returns := Tag.plain "returns" "\x7bok\x7d then"
    let d : Doc := ⟨some "Opens a panel.\n- @ home", [size, returns, .plain "internal" ""]⟩
    let spellings : List Spelling :=
      [⟨some ['n'], .bracketed (some ['1', ' ', '='])⟩, ⟨some ['T'], .bare⟩, ⟨none, .bare⟩]
    d.render spellings =
        "/**\n * Opens a panel.\n * - @ home\n * @param \x7bn\x7d [size=1 =] - in pixels\n" ++
          " * - or percent\n * @returns \x7bT\x7d \x7bok\x7d then\n * @internal \n */" ∧
      parse (d.render spellings) = d := by
  refine ⟨by decide +kernel, parse_render ⟨?summary, ?tags⟩ ?spellings⟩
  case summary =>
    rintro _ ⟨⟩
    exact ⟨by decide, by decide, by decide, by decide⟩
  case tags =>
    have hparameter : IsParameterName "size".toList := ⟨by decide, by decide, by decide⟩
    simp only [List.forall_mem_cons]
    refine ⟨?_, ?_, ?_, nofun⟩
    · exact ⟨⟨'p', _, rfl, by decide, by decide⟩, ⟨fun _ => rfl, fun _ => ⟨_, _, rfl⟩⟩,
        by rintro _ _ ⟨⟩; exact hparameter, ⟨by decide, by decide, by decide⟩⟩
    · exact ⟨⟨'r', _, rfl, by decide, by decide⟩, ⟨nofun, fun h => absurd h (by decide)⟩, nofun,
        ⟨by decide, by decide, by decide⟩⟩
    · exact ⟨⟨'i', _, rfl, by decide, by decide⟩, ⟨nofun, fun h => absurd h (by decide)⟩, nofun,
        ⟨by decide, by decide, by decide⟩⟩
  case spellings =>
    refine .cons ⟨by decide, ?_, nofun⟩
      (.cons ⟨by decide, nofun, nofun⟩ (.cons ⟨nofun, nofun, ?_⟩ .nil))
    · rintro _ _ ⟨⟩
      exact ⟨by decide, by decide⟩
    · exact fun _ h => absurd h (by decide)

end MarkupCatalog.Doc

import Mathlib.Data.List.Forall2
import MarkupCatalog.Doc.Parser
import MarkupCatalog.Proofs.Texts

/-!
# Layouts of documentation comments

A comment is read line by line.  Blanks around a line make no difference, nor do empty lines around
them all.  A comment on one line is read like the comment that has this line behind a gutter, unless
the line starts with an asterisk: that is then taken for the gutter.
-/

namespace MarkupCatalog

/-! ## 1. The content of a comment -/

namespace Doc

open Text

/-- What a comment says whose lines have lost their gutters. -/
def ofLines (ls : List (List Char)) : Doc :=
  let (head, tags) := sections ls
  { ofSummary (String.ofList (trim (join ['\n'] head))) with
    tags := tags.map fun (name, lines) => readTag name lines }

theorem summary_ofLines (ls : List (List Char)) :
    (ofLines ls).summary =
      (ofSummary (String.ofList (trim (join ['\n'] (sections ls).1)))).summary :=
  rfl

theorem tags_ofLines (ls : List (List Char)) :
    (ofLines ls).tags = (sections ls).2.map fun t => readTag t.1 t.2 := rfl

theorem parse_eq_ofLines (raw : String) : parse raw = ofLines (contentLines raw.toList) := rfl

theorem contentLines_enclosed (body : List Char) :
    contentLines (opening ++ (body ++ closing)) = (lines body).map stripGutter := by
  have hopened : (after? opening (opening ++ (body ++ closing))).getD
      (opening ++ (body ++ closing)) = body ++ closing := by
    rw [after?_append, Option.getD_some]
  unfold contentLines
  simp only [hopened, before?_append, Option.getD_some]

/-! ## 2. Gutters -/

/-- A text without the character `c` at its start. -/
def dropOne (c : Char) : List Char → List Char
  | [] => []
  | d :: r => if d = c then r else d :: r

theorem stripGutter_eq (l : List Char) :
    stripGutter l = trimEnd (dropOne ' ' (dropOne '*' (trimStart l))) := by
  unfold stripGutter
  generalize trimStart l = s
  cases s with
  | nil => rfl
  | cons d r =>
    by_cases hstar : d = '*'
    · cases r with
      | nil => simp [dropOne, hstar]
      | cons e r => by_cases hspace : e = ' ' <;> simp [dropOne, hstar, hspace]
    · by_cases hspace : d = ' ' <;> simp [dropOne, hstar, hspace]

theorem dropOne_append {c : Char} {s : List Char} (hs : s ≠ []) (t : List Char) :
    dropOne c (s ++ t) = dropOne c s ++ t := by
  cases s with
  | nil => exact absurd rfl hs
  | cons d r => by_cases hd : d = c <;> simp [dropOne, hd]

theorem dropOne_sublist (c : Char) (s : List Char) : (dropOne c s).Sublist s := by
  cases s with
  | nil => exact .refl _
  | cons d r => by_cases hd : d = c <;> simp [dropOne, hd]

/-- Blanks at the end are trimmed before or behind that. -/
theorem trimEnd_dropOne (c : Char) (s : List Char) :
    trimEnd (dropOne c (trimEnd s)) = trimEnd (dropOne c s) := by
  obtain ⟨b, hs, hb⟩ := trimEnd_append_rest s
  by_cases hend : trimEnd s = []
  · -- among blanks the character may be one of those that are trimmed
    rw [hend, List.nil_append] at hs
    have hblank : ∀ d ∈ dropOne c b, isBlank d := fun d hd => hb d ((dropOne_sublist c b).subset hd)
    calc trimEnd (dropOne c (trimEnd s))
      _ = trimEnd [] := by rw [hend, dropOne]
      _ = trimEnd ([] ++ dropOne c b) := (trimEnd_append_blanks hblank _).symm
      _ = trimEnd (dropOne c s) := by rw [← hs, List.nil_append]
  · calc trimEnd (dropOne c (trimEnd s))
      _ = trimEnd (dropOne c (trimEnd s) ++ b) := (trimEnd_append_blanks hb _).symm
      _ = trimEnd (dropOne c s) := by rw [← dropOne_append hend, ← hs]

/-- Blanks around a line do not count. -/
theorem stripGutter_trim (l : List Char) : stripGutter (trim l) = stripGutter l := by
  have hstart : trimStart (trim l) = trimEnd (trimStart l) :=
    trimStart_eq_self (trimmed_trim l).first
  calc stripGutter (trim l)
    _ = trimEnd (dropOne ' ' (dropOne '*' (trimEnd (trimStart l)))) := by
      rw [stripGutter_eq, hstart]
    _ = trimEnd (dropOne ' ' (dropOne '*' (trimStart l))) := by
      rw [← trimEnd_dropOne, trimEnd_dropOne '*', trimEnd_dropOne]
    _ = stripGutter l := (stripGutter_eq l).symm

theorem stripGutter_congr {l l' : List Char} (h : trim l = trim l') :
    stripGutter l = stripGutter l' := by
  rw [← stripGutter_trim, h, stripGutter_trim]

/-! ## 3. Empty lines around the content -/

/-- Lines with an empty one behind them, or without it. -/
inductive Padded (ls : List (List Char)) : List (List Char) → Prop
  | same : Padded ls ls
  | blank : Padded ls (ls ++ [[]])

theorem Padded.cons {ls ls' : List (List Char)} (h : Padded ls ls') (l : List Char) :
    Padded (l :: ls) (l :: ls') := by
  cases h with
  | same => exact .same
  | blank => exact .blank

theorem Padded.trim_join {ls ls' : List (List Char)} (h : Padded ls ls') :
    trim (join ['\n'] ls') = trim (join ['\n'] ls) := by
  cases h with
  | same => rfl
  | blank => exact trim_join_snoc_nil ls

theorem Padded.readTag {ls ls' : List (List Char)} (h : Padded ls ls') (name : List Char) :
    readTag name ls' = readTag name ls := by
  have htext : trim (join ['\n'] (ls'.map trim)) = trim (join ['\n'] (ls.map trim)) := by
    cases h with
    | same => rfl
    | blank =>
      rw [List.map_append]
      exact trim_join_snoc_nil _
  unfold Doc.readTag
  rw [htext]

/-- An empty line at the end goes to the last tag, or to the summary where there is no tag. -/
theorem sections_snoc_nil (ls : List (List Char)) :
    Padded (sections ls).1 (sections (ls ++ [[]])).1 ∧
      List.Forall₂ (fun t t' => t'.1 = t.1 ∧ Padded t.2 t'.2) (sections ls).2
        (sections (ls ++ [[]])).2 := by
  induction ls with
  | nil => exact ⟨.blank, .nil⟩
  | cons l ls ih =>
    obtain ⟨hhead, htags⟩ := ih
    rw [List.cons_append, sections, sections]
    cases tagLine? l with
    | none => exact ⟨hhead.cons l, htags⟩
    | some header => exact ⟨.same, .cons ⟨rfl, hhead.cons _⟩ htags⟩

theorem map_readTag_padded {tags tags' : List (List Char × List (List Char))}
    (h : List.Forall₂ (fun t t' => t'.1 = t.1 ∧ Padded t.2 t'.2) tags tags') :
    tags'.map (fun t => readTag t.1 t.2) = tags.map fun t => readTag t.1 t.2 := by
  induction h with
  | nil => rfl
  | cons h _ ih =>
    obtain ⟨hname, hlines⟩ := h
    rw [List.map_cons, List.map_cons, ih, hname, hlines.readTag]

theorem ofLines_snoc_nil (ls : List (List Char)) : ofLines (ls ++ [[]]) = ofLines ls := by
  obtain ⟨hhead, htags⟩ := sections_snoc_nil ls
  show Doc.mk (ofSummary (String.ofList (trim (join ['\n'] (sections (ls ++ [[]])).1)))).summary
    ((sections (ls ++ [[]])).2.map fun t => readTag t.1 t.2) = _
  rw [map_readTag_padded htags, hhead.trim_join]
  rfl

theorem ofLines_nil_cons (ls : List (List Char)) : ofLines ([] :: ls) = ofLines ls := by
  show Doc.mk (ofSummary (String.ofList (trim (join ['\n'] ([] :: (sections ls).1))))).summary _ = _
  rw [trim_join_nil_cons]
  rfl

theorem Padded.mem_head? {ls ls' : List (List Char)} (h : Padded ls ls') {l : List Char}
    (hl : l ∈ ls.head?) : l ∈ ls'.head? := by
  cases h with
  | same => exact hl
  | blank => rw [List.head?_append, Option.mem_def.mp hl]; rfl

theorem Padded.ofLines {ls ls' : List (List Char)} (h : Padded ls ls') :
    ofLines ls' = ofLines ls := by
  cases h with
  | same => rfl
  | blank => exact ofLines_snoc_nil ls

/-! ## 4. Lines of a body -/

/-- The lines of a body without their gutters; what follows the last line feed is a line, too. -/
def bodyLines (body : List Char) : List (List Char) := (split '\n' body).map stripGutter

theorem bodyLines_append (s t : List Char) :
    bodyLines (s ++ '\n' :: t) = bodyLines s ++ bodyLines t := by
  rw [bodyLines, split_append, List.map_append]
  rfl

theorem bodyLines_of_not_mem {s : List Char} (h : '\n' ∉ s) : bodyLines s = [stripGutter s] := by
  rw [bodyLines, split_of_not_mem h]
  rfl

/-- A carriage return that belongs to a line break is a blank at the end of the line. -/
theorem stripGutter_withoutReturn (l : List Char) :
    stripGutter (if l.getLast? = some '\r' then l.dropLast else l) = stripGutter l := by
  apply stripGutter_congr
  split
  next hreturn =>
    obtain ⟨r, rfl⟩ := List.getLast?_eq_some_iff.mp hreturn
    rw [List.dropLast_concat, trim_append_blanks (by decide)]
  next => rfl

theorem padded_lines (s : List Char) : Padded ((lines s).map stripGutter) (bodyLines s) := by
  obtain ⟨init, last, hpieces⟩ : ∃ init last, split '\n' s = init ++ [last] :=
    ⟨_, _, (List.dropLast_concat_getLast (split_ne_nil '\n' s)).symm⟩
  have hclosed : (init.map fun l => if l.getLast? = some '\r' then l.dropLast else l).map
      stripGutter = init.map stripGutter := by
    rw [List.map_map]
    exact List.map_congr_left fun l _ => stripGutter_withoutReturn l
  unfold lines bodyLines
  simp only [hpieces, List.dropLast_concat, List.getLast?_concat, List.map_append]
  cases last with
  | nil =>
    rw [hclosed]
    exact .blank
  | cons c r =>
    rw [List.map_append, hclosed]
    exact .same

theorem parse_enclosed (body : List Char) :
    parse (String.ofList (opening ++ (body ++ closing))) = ofLines (bodyLines body) := by
  rw [parse_eq_ofLines, String.toList_ofList, contentLines_enclosed, (padded_lines body).ofLines]

theorem parse_body (body : String) :
    parse ("/**" ++ body ++ "*/") = ofLines (bodyLines body.toList) := by
  have htext : "/**" ++ body ++ "*/" = String.ofList (opening ++ (body.toList ++ closing)) := by
    apply String.toList_injective
    simp [opening, closing]
  rw [htext, parse_enclosed]

def gutter : List Char := [' ', '*', ' ']

/-- A comment with its opening and closing on lines of their own, and the lines of its content
behind gutters. -/
def block (ls : List (List Char)) : List Char :=
  opening ++ ('\n' :: ls.flatMap (fun l => gutter ++ l ++ ['\n']) ++ [' '] ++ closing)

theorem stripGutter_gutter (l : List Char) : stripGutter (gutter ++ l) = trimEnd l := rfl

theorem bodyLines_guttered {ls : List (List Char)} (h : ∀ l ∈ ls, '\n' ∉ l) :
    bodyLines (ls.flatMap (fun l => gutter ++ l ++ ['\n']) ++ [' ']) = ls.map trimEnd ++ [[]] := by
  induction ls with
  | nil => rfl
  | cons l ls ih =>
    have hl : '\n' ∉ gutter ++ l :=
      fun hmem => (List.mem_append.mp hmem).elim (by decide) (h l List.mem_cons_self)
    rw [List.flatMap_cons, List.append_assoc, List.append_assoc, List.singleton_append,
      bodyLines_append, bodyLines_of_not_mem hl, stripGutter_gutter,
      ih fun l hl => h l (List.mem_cons_of_mem _ hl)]
    rfl

theorem parse_block {ls : List (List Char)} (h : ∀ l ∈ ls, '\n' ∉ l) :
    parse (String.ofList (block ls)) = ofLines (ls.map trimEnd) := by
  have hlines : bodyLines ('\n' :: ls.flatMap (fun l => gutter ++ l ++ ['\n']) ++ [' ']) =
      [] :: (ls.map trimEnd ++ [[]]) := by
    show bodyLines ([] ++ '\n' :: (_ ++ [' '])) = _
    rw [bodyLines_append, bodyLines_guttered h]
    rfl
  unfold block
  rw [parse_enclosed, hlines, ofLines_nil_cons, ofLines_snoc_nil]

/-! ## 5. Comments on one line -/

theorem ofLines_of_tagLine?_none {l : List Char} (h : tagLine? l = none) :
    ofLines [l] = ofSummary (String.ofList (trim l)) := by
  unfold ofLines sections
  rw [h]
  rfl

theorem tags_ofLines_ne_nil {l : List Char} {header : List Char × List Char}
    (h : tagLine? l = some header) : (ofLines [l]).tags ≠ [] := by
  unfold ofLines sections
  rw [h]
  exact List.cons_ne_nil _ _

theorem ofSummary_injective {s s' : String} (h : ofSummary s = ofSummary s') : s = s' := by
  have hsummary := congrArg Doc.summary h
  unfold ofSummary at hsummary
  by_cases hs : s = "" <;> by_cases hs' : s' = "" <;> simp_all

/-- The line of a comment that stands on one line. -/
theorem parse_oneLine {s : String} (hline : '\n' ∉ s.toList) :
    parse ("/** " ++ s ++ " */") = ofLines [stripGutter (' ' :: s.toList ++ [' '])] := by
  have htext : "/** " ++ s ++ " */" =
      String.ofList (opening ++ ((' ' :: s.toList ++ [' ']) ++ closing)) := by
    apply String.toList_injective
    simp [opening, closing]
  have hnoBreak : '\n' ∉ ' ' :: s.toList ++ [' '] := by simp [hline]
  rw [htext, parse_enclosed, bodyLines_of_not_mem hnoBreak]

/-- The line of a comment that stands on a line of its own. -/
theorem parse_guttered {s : String} (hline : '\n' ∉ s.toList) :
    parse ("/**\n * " ++ s ++ "\n */") = ofLines [trimEnd s.toList] := by
  have htext : "/**\n * " ++ s ++ "\n */" = String.ofList (block [s.toList]) := by
    apply String.toList_injective
    simp [block, gutter, opening, closing]
  rw [htext, parse_block fun l hl => List.mem_singleton.mp hl ▸ hline]
  rfl

theorem stripGutter_trimmed {s : List Char} (hs : Trimmed s) (hstar : s.head? ≠ some '*') :
    stripGutter (' ' :: s ++ [' ']) = s := by
  cases s with
  | nil => rfl
  | cons c r =>
    have hc : isBlank c = false := hs.first c rfl
    have hstart : trimStart (' ' :: c :: r ++ [' ']) = c :: r ++ [' '] := by
      show trimStart (c :: r ++ [' ']) = _
      apply trimStart_eq_self
      intro d hd
      obtain rfl : c = d := Option.some.inj hd
      exact hc
    have hend : trimEnd (c :: r ++ [' ']) = c :: r := by
      rw [trimEnd_append_blanks (by decide), trimEnd_eq_self hs.last]
    have hspace : c ≠ ' ' := by
      rintro rfl
      exact absurd hc (by decide)
    have hstar : c ≠ '*' := fun h => hstar (congrArg some h)
    unfold stripGutter
    simp only [hstart]
    simp_all

/-- The asterisk at the start of the line is lost. -/
theorem trim_stripGutter_star (t : List Char) :
    trim (stripGutter (' ' :: '*' :: t ++ [' '])) = trim t := by
  have hblank : ∀ c ∈ [' '], isBlank c := by decide
  cases t with
  | nil => rfl
  | cons c t =>
    by_cases hc : c = ' '
    · subst hc
      show trim (trimEnd (t ++ [' '])) = trim ([' '] ++ t)
      rw [trim_trimEnd, trim_append_blanks hblank, trim_blanks_append hblank]
    · have hstrip : stripGutter (' ' :: '*' :: c :: t ++ [' ']) = trimEnd (c :: t ++ [' ']) := by
        have hstart : trimStart (' ' :: '*' :: c :: t ++ [' ']) = '*' :: c :: t ++ [' '] := rfl
        unfold stripGutter
        simp only [hstart]
        simp_all
      rw [hstrip, trim_trimEnd, trim_append_blanks hblank]

/-- A line means the same behind the opening of a comment and behind a gutter, but for an asterisk
at its start, which is lost behind the opening. -/
theorem parse_oneLine_eq_iff {s : String} (hline : '\n' ∉ s.toList) (hs : Trimmed s.toList) :
    parse ("/** " ++ s ++ " */") = parse ("/**\n * " ++ s ++ "\n */") ↔
      s.toList.head? ≠ some '*' := by
  rw [parse_oneLine hline, parse_guttered hline, trimEnd_eq_self hs.last]
  constructor
  · -- both could only be the same summary, but the one behind the opening is shorter
    intro heq hstar
    obtain ⟨t, ht⟩ : ∃ t, s.toList = '*' :: t := List.head?_eq_some_iff.mp hstar
    rw [ht] at heq hs
    have hguttered : ofLines ['*' :: t] = ofSummary (String.ofList ('*' :: t)) := by
      rw [ofLines_of_tagLine?_none rfl, hs.trim_eq]
    rw [hguttered] at heq
    cases htag : tagLine? (stripGutter (' ' :: '*' :: t ++ [' '])) with
    | some header => exact tags_ofLines_ne_nil htag (congrArg Doc.tags heq)
    | none =>
      rw [ofLines_of_tagLine?_none htag, trim_stripGutter_star] at heq
      have htexts := congrArg String.toList (ofSummary_injective heq)
      rw [String.toList_ofList, String.toList_ofList] at htexts
      have hlength := length_trim_le t
      rw [htexts, List.length_cons] at hlength
      omega
  · intro hstar
    rw [stripGutter_trimmed hs hstar]

theorem parse_oneLine_eq_iff_returns :
    parse ("/** " ++ "@returns {T} x" ++ " */") =
        parse ("/**\n * " ++ "@returns {T} x" ++ "\n */") ∧
      parse ("/** " ++ "**bold**" ++ " */") ≠ parse ("/**\n * " ++ "**bold**" ++ "\n */") := by
  constructor
  · exact (parse_oneLine_eq_iff (by decide) ⟨by decide, by decide⟩).mpr (by decide)
  · exact fun h => (parse_oneLine_eq_iff (by decide) ⟨by decide, by decide⟩).mp h (by decide)

/-- Emphasis loses its first asterisk behind the opening and keeps it behind a gutter. -/
theorem parse_oneLine_emphasis :
    parse ("/** " ++ "*note*" ++ " */") = ofSummary "note*" ∧
      parse ("/**\n * " ++ "*note*" ++ "\n */") = ofSummary "*note*" ∧
      parse ("/** " ++ "*note*" ++ " */") ≠ parse ("/**\n * " ++ "*note*" ++ "\n */") := by
  decide

end Doc
end MarkupCatalog

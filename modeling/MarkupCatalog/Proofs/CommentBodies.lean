import MarkupCatalog.Proofs.WrittenComments

/-!
# Bodies of documentation comments

What stands between the opening and the closing of a comment.  Its layout makes no difference: of
each line only what is left when it is trimmed counts.  A body may be continued by another one whose
first line starts a tag: the comment then has the summary of the first, and the tags of both.
-/

namespace MarkupCatalog.Doc

open Text

/-! ## 1. Layouts -/

theorem bodyLines_join {ls : List (List Char)} (hne : ls ≠ []) (h : ∀ l ∈ ls, '\n' ∉ l) :
    bodyLines (join ['\n'] ls) = ls.map stripGutter := by
  rw [bodyLines, split_join hne h]

theorem parse_lines {ls : List String} (h : ∀ l ∈ ls, '\n' ∉ l.toList) :
    parse ("/**" ++ "\n".intercalate ls ++ "*/") =
      ofLines ((ls.map trimmed).map fun l => stripGutter l.toList) := by
  have hbody : ("\n".intercalate ls).toList = join ['\n'] (ls.map String.toList) := by
    rw [String.toList_intercalate, join_eq_intercalate]
    rfl
  have hstripped (l : String) : stripGutter (trimmed l).toList = stripGutter l.toList := by
    rw [trimmed, String.toList_ofList, stripGutter_trim]
  simp only [List.map_map, Function.comp_def, hstripped]
  rw [parse_body, hbody]
  cases ls with
  | nil => exact ofLines_nil_cons []
  | cons l ls =>
    have hnoBreak : ∀ s ∈ (l :: ls).map String.toList, '\n' ∉ s := List.forall_mem_map.mpr h
    have hne : (l :: ls).map String.toList ≠ [] := List.cons_ne_nil _ _
    rw [bodyLines_join hne hnoBreak, List.map_map, Function.comp_def]

/-- Lines may be indented, end in blanks or carriage returns, or be without either. -/
theorem parse_congr_layout {ls ls' : List String} (hls : ∀ l ∈ ls, '\n' ∉ l.toList)
    (hls' : ∀ l ∈ ls', '\n' ∉ l.toList) (h : ls.map trimmed = ls'.map trimmed) :
    parse ("/**" ++ "\n".intercalate ls ++ "*/") =
      parse ("/**" ++ "\n".intercalate ls' ++ "*/") := by
  rw [parse_lines hls, parse_lines hls', h]

/-- Tabs before the asterisks, carriage returns, a line of blanks instead of an empty one, and no
line of its own for the closing. -/
theorem parse_congr_layout_tabs :
    let ls := ["", " * Opens a panel.", " *", " *   At once.", " * @see close", " * ", " "]
    let ls' := [" \r", "\t* Opens a panel.\t\r", "*\r", "\t\t*   At once.\r", "* @see close\r",
      "\t*", ""]
    "/**" ++ "\n".intercalate ls' ++ "*/" =
        "/** \r\n\t* Opens a panel.\t\r\n*\r\n\t\t*   At once.\r\n* @see close\r\n\t*\n*/" ∧
      parse ("/**" ++ "\n".intercalate ls ++ "*/") =
        ⟨some "Opens a panel.\n\n  At once.", [.plain "see" "close"]⟩ ∧
      parse ("/**" ++ "\n".intercalate ls ++ "*/") =
        parse ("/**" ++ "\n".intercalate ls' ++ "*/") := by
  refine ⟨by decide, by decide, ?_⟩
  exact parse_congr_layout (by decide) (by decide) (by decide)

/-! ## 2. Continued bodies -/

theorem sections_append_of_startsTag {ls' : List (List Char)} (h : ∃ l ∈ ls'.head?, StartsTag l)
    (ls : List (List Char)) :
    sections (ls ++ ls') = ((sections ls).1, (sections ls).2 ++ (sections ls').2) := by
  obtain ⟨l, hl, hstarts⟩ := h
  obtain ⟨after, rfl⟩ := List.head?_eq_some_iff.mp hl
  cases htag : tagLine? l with
  | none => exact absurd hstarts ((tagLine?_eq_none_iff l).mp htag)
  | some header => rw [sections_append_tag htag, sections.eq_2 l after, htag]

/-- How many lines of a body start a tag. -/
def tagCount (body : List Char) : Nat :=
  (lines body).countP fun l => StartsTag (stripGutter l)

theorem length_sections (ls : List (List Char)) :
    (sections ls).2.length = ls.countP fun l => StartsTag l := by
  induction ls with
  | nil => rfl
  | cons l ls ih =>
    rw [sections]
    cases htag : tagLine? l with
    | none =>
      have hno := (tagLine?_eq_none_iff l).mp htag
      rw [List.countP_cons_of_neg (by simpa using hno)]
      exact ih
    | some header =>
      have hstarts : StartsTag l := by
        by_contra hno
        rw [(tagLine?_eq_none_iff l).mpr hno] at htag
        cases htag
      rw [List.countP_cons_of_pos (by simpa using hstarts), ← ih]
      rfl

/-- A comment has a tag for every line that starts one. -/
theorem length_tags (body : String) :
    (parse ("/**" ++ body ++ "*/")).tags.length = tagCount body.toList := by
  have htext : ("/**" ++ body ++ "*/").toList = opening ++ (body.toList ++ closing) := by
    simp [opening, closing]
  rw [parse_eq_ofLines, tags_ofLines, List.length_map, length_sections, htext,
    contentLines_enclosed, List.countP_map]
  rfl

/-- The tags of a body do not change what stands before it. -/
theorem parse_append_tags {a b : String}
    (hb : ∃ l ∈ (lines b.toList).head?, StartsTag (stripGutter l)) :
    let whole := parse ("/**" ++ a ++ "\n" ++ b ++ "*/")
    whole.summary = (parse ("/**" ++ a ++ "*/")).summary ∧
      whole.tags = (parse ("/**" ++ a ++ "*/")).tags ++ (parse ("/**" ++ b ++ "*/")).tags ∧
      whole.tags.length = tagCount a.toList + tagCount b.toList := by
  have hfirst : ∃ l ∈ (bodyLines b.toList).head?, StartsTag l := by
    obtain ⟨l, hl, hstarts⟩ := hb
    have hl : stripGutter l ∈ ((lines b.toList).map stripGutter).head? := by
      rw [List.head?_map, Option.mem_def.mp hl]
      rfl
    exact ⟨_, (padded_lines b.toList).mem_head? hl, hstarts⟩
  have hlines : bodyLines (a ++ "\n" ++ b).toList = bodyLines a.toList ++ bodyLines b.toList := by
    rw [← bodyLines_append]
    simp
  have hwhole : parse ("/**" ++ a ++ "\n" ++ b ++ "*/") =
      ofLines (bodyLines a.toList ++ bodyLines b.toList) := by
    rw [← hlines, ← parse_body]
    simp only [String.append_assoc]
  have hsections := sections_append_of_startsTag hfirst (bodyLines a.toList)
  have htags : (parse ("/**" ++ a ++ "\n" ++ b ++ "*/")).tags =
      (parse ("/**" ++ a ++ "*/")).tags ++ (parse ("/**" ++ b ++ "*/")).tags := by
    rw [hwhole, parse_body a, parse_body b, tags_ofLines, tags_ofLines, tags_ofLines, hsections,
      List.map_append]
  refine ⟨?_, htags, ?_⟩
  · rw [hwhole, parse_body a, summary_ofLines, summary_ofLines, hsections]
  · rw [htags, List.length_append, length_tags, length_tags]

/-- A tag of two lines, the second of which ends in a carriage return, and a body with a tab before
its asterisk and nothing behind its last line feed. -/
theorem parse_append_tags_returns :
    let a := " Opens.\n * @param x the place\n *   of the panel\r"
    let b := "\t* @returns \x7bT\x7d it\n * @internal\n"
    let whole := parse ("/**" ++ a ++ "\n" ++ b ++ "*/")
    (∃ l ∈ (lines b.toList).head?, StartsTag (stripGutter l)) ∧
      whole.summary = some "Opens." ∧
      whole.tags = [.parameter "x" "the place\nof the panel"] ++
        [.plain "returns" "it", .plain "internal" ""] ∧
      whole.tags.length = 3 := by
  intro a b whole
  have hb : ∃ l ∈ (lines b.toList).head?, StartsTag (stripGutter l) :=
    ⟨"\t* @returns \x7bT\x7d it".toList, by decide, by decide⟩
  obtain ⟨hsummary, htags, hlength⟩ := parse_append_tags (a := a) hb
  have hfirst : parse ("/**" ++ a ++ "*/") =
      ⟨some "Opens.", [.parameter "x" "the place\nof the panel"]⟩ := by decide
  have hsecond : (parse ("/**" ++ b ++ "*/")).tags =
      [.plain "returns" "it", .plain "internal" ""] := by decide
  have hcounts : tagCount a.toList + tagCount b.toList = 3 := by decide
  rw [hfirst] at hsummary htags
  rw [hsecond] at htags
  rw [hcounts] at hlength
  exact ⟨hb, hsummary, htags, hlength⟩

end MarkupCatalog.Doc

import MarkupCatalog.Proofs.GlobLines
import MarkupCatalog.Proofs.GlobRoots
import MarkupCatalog.Proofs.OfferedFiles

/-!
# Patterns that exclude themselves

An exclude pattern is a line of its own: nothing is cut off in front of it, and a backslash in it is
no slash.  Written with slashes, a pattern that is for the base itself applies to all that it
selects there, so that it excludes all of it.  Only a dot in front makes a difference: it is cut off
where the pattern selects, and where the pattern excludes it is asked for as a name, which nothing
has.
-/

namespace MarkupCatalog

open Glob (Applies Rule)

namespace Glob

/-! ## 1. Lines with a slash in front -/

section Tied

variable {s : List Char} {glob : List Piece}

/-- Two stars and a slash in front of a glob put a piece for directories in front of its pieces. -/
theorem parse_everywhere_of_parse (hstars : ¬ ['*', '*'] <+: s) (h : parse s = .ok glob) :
    parse ("**/".toList ++ s) = .ok (.leading :: glob) := by
  have hfree : ∀ r, s = '*' :: '*' :: r → False := fun r hr => hstars ⟨r, hr.symm⟩
  rw [parse_everywhere, parseFrom_eq_ok_iff]
  exact (parse_eq_ok_iff.mp h).on [.leading] fun r hr => (hfree r hr).elim

theorem reads_leading_of_reads (hstars : ¬ ['*', '*'] <+: s) (h : parse s = .ok glob)
    {names : List RawText} (hnames : ∀ name ∈ names, IsEntryName name) (hne : names ≠ [])
    (hreads : reads glob (Rule.bytesOf names) = true) :
    reads (.leading :: glob) (Rule.bytesOf names) = true := by
  by_cases hempty : glob = []
  · rw [hempty]
    rfl
  · -- the pieces alone read the path, and the directories in front of it may be none
    have hleading : glob ≠ [.leading] := by
      rintro rfl
      have hhead := (parse_eq_ok_iff.mp h).head?_ne_leading nofun
        fun r hr => absurd ⟨r, hr.symm⟩ hstars
      exact hhead rfl
    rw [reads_eq_acceptsAll hleading] at hreads
    have hmore : .leading :: glob ≠ [Piece.leading] := fun heq => hempty (List.cons.inj heq).2
    rw [reads_eq_acceptsAll hmore, acceptsAll_leading_iff hnames hne]
    exact ⟨[], names, rfl, hne, hreads⟩

/-- Without the slash in front a line applies to no less. -/
theorem applies_of_tied {line tied : String} (htied : tied.toList = '/' :: line.toList)
    (hhead : line.toList.head? ≠ some '/') (hstars : ¬ ['*', '*'] <+: line.toList)
    {names : List RawText} (hnames : ∀ name ∈ names, IsEntryName name) (hne : names ≠ [])
    (h : Applies tied names false) : Applies line names false := by
  obtain ⟨r, hr, happlies⟩ := h
  obtain ⟨hglob, hdirectories⟩ := Rule.parse_eq_ok_iff_body.mp hr
  rw [htied, Rule.trimmed_slash] at hglob hdirectories
  have hbegins := Rule.trimmed_prefix line.toList
  have hstars' : ¬ ['*', '*'] <+: Rule.trimmed line.toList := fun h => hstars (h.trans hbegins)
  have hhead' : (Rule.trimmed line.toList).head? ≠ some '/' := by
    intro hslash
    obtain ⟨u, hu⟩ := hbegins
    rw [← hu, List.head?_append, hslash] at hhead
    exact hhead rfl
  rw [Rule.applies, Bool.false_or, Bool.and_eq_true, Bool.not_eq_true'] at happlies
  obtain ⟨hfiles, hreads⟩ := happlies
  have hend : (Rule.trimmed line.toList).getLast? ≠ some '/' := by
    rw [hfiles] at hdirectories
    exact of_decide_eq_false hdirectories.symm
  have huntied : Rule.untied (Rule.trimmed line.toList) = Rule.trimmed line.toList := if_neg hhead'
  -- it is enough that the line has a glob that reads as much
  have happly {glob : List Piece} (hglob' : parse (Rule.body (Rule.trimmed line.toList)) = .ok glob)
      (hreads' : reads glob (Rule.bytesOf names) = true) : Applies line names false := by
    refine ⟨⟨glob, false⟩, Rule.parse_eq_ok_iff_body.mpr ⟨hglob', ?_⟩, ?_⟩
    · rw [huntied]
      exact (decide_eq_false hend).symm
    · exact hreads'
  by_cases hslash : '/' ∈ Rule.trimmed line.toList
  · -- a slash in the middle ties the line as the one in front does
    rw [Rule.body_slash hend] at hglob
    refine happly ?_ hreads
    rw [Rule.body_of_mem hhead' hend hslash]
    exact hglob
  · -- without one the line is for every depth, and for the top among them
    rw [Rule.body_slash_of_notMem hslash] at hglob
    refine happly ?_ (reads_leading_of_reads hstars' hglob hnames hne hreads)
    have hne : Rule.trimmed line.toList ≠ ['*', '*'] := by
      intro heq
      exact hstars' (heq ▸ List.prefix_rfl)
    rw [Rule.body_of_notMem hslash hne]
    exact parse_everywhere_of_parse hstars' hglob

end Tied

/-! ## 2. Lines with a dot and a slash in front -/

theorem Rule.exists_withoutEndSlash_here {s : List Char} (hs : s ≠ []) :
    ∃ t, withoutEndSlash (['.', '/'] ++ s) = ['.', '/'] ++ t := by
  unfold withoutEndSlash
  rw [List.dropLast_append_of_ne_nil hs]
  dsimp only
  split
  next hlast =>
    have hrest : s.dropLast ≠ [] := by
      intro hnil
      rw [hnil] at hlast
      exact absurd hlast (by decide)
    exact ⟨_, List.dropLast_append_of_ne_nil hrest⟩
  next => exact ⟨_, rfl⟩

/-- Alone, the dot is a name at any depth.  Else the slash behind it ties the line. -/
theorem Rule.body_here (s : List Char) : body (['.', '/'] ++ s) = "**/.".toList ∨
    ∃ t, body (['.', '/'] ++ s) = ['.', '/'] ++ t := by
  by_cases hs : s = []
  · subst hs
    exact .inl (by decide)
  right
  have hfree : (['.', '/'] ++ s).head? ≠ some '/' := by simp
  have huntied : untied (['.', '/'] ++ s) = ['.', '/'] ++ s := if_neg hfree
  -- whatever is cut off at the end, the dot and the slash stay
  have hrest : ∃ t, (if (['.', '/'] ++ s).getLast? = some '/' then withoutEndSlash (['.', '/'] ++ s)
      else ['.', '/'] ++ s) = ['.', '/'] ++ t := by
    split
    next => exact exists_withoutEndSlash_here hs
    next => exact ⟨s, rfl⟩
  obtain ⟨t, ht⟩ := hrest
  have hdepth : atEveryDepth (['.', '/'] ++ t) = ['.', '/'] ++ t := if_pos (.inl (by simp))
  unfold body
  simp only [huntied, if_neg hfree, ht, hdepth]
  unfold withinOnly
  split
  next => exact ⟨t ++ "/*".toList, List.append_assoc _ _ _⟩
  next => exact ⟨t, rfl⟩

theorem parse_dot : parse "**/.".toList = .ok [.leading, .byte '.'.toUInt8] := by
  show parse ("**/".toList ++ ['.']) = _
  rw [parse_everywhere, (Token.char (by decide) []).parseFrom_eq, parseFrom]
  rfl

theorem exists_of_parse_here {s : List Char} {glob : List Piece}
    (h : parse (['.', '/'] ++ s) = .ok glob) :
    ∃ q rest, glob = .byte '.'.toUInt8 :: q :: rest ∧ q.StartsInSlash := by
  have hparse : parse (['.', '/'] ++ s) =
      parseFrom (some '/') [] [.byte slash, .byte '.'.toUInt8] s := by
    rw [parse, List.cons_append, (Token.char (by decide) _).parseFrom_eq]
    exact (Token.char (by decide) s).parseFrom_eq _ _ _
  rw [hparse, parseFrom_eq_ok_iff] at h
  have houter : outer [] [.byte slash, .byte '.'.toUInt8] =
      [] ++ .byte slash :: [.byte '.'.toUInt8] := rfl
  exact h.exists_startsInSlash [] houter .byte

theorem Piece.StartsInSlash.head?_eq {p : Piece} (hp : p.StartsInSlash)
    {next : List UInt8 → Bool} {s : List UInt8} (h : p.accepts next s = true) :
    s.head? = some slash := by
  cases s with
  | nil => cases hp <;> cases h
  | cons b s =>
    have hb : b = slash := by
      cases hp <;> exact beq_iff_eq.mp (Bool.and_eq_true_iff.mp h).1
    rw [hb, List.head?_cons]

theorem exists_cons_of_acceptsAll_byte {b : UInt8} {ps : List Piece} {next : List UInt8 → Bool}
    {s : List UInt8} (h : acceptsAll next s (.byte b :: ps) = true) :
    ∃ r, s = b :: r ∧ acceptsAll next r ps = true := by
  cases s with
  | nil => cases h
  | cons c r =>
    rw [acceptsAll, Piece.accepts, Bool.and_eq_true, beq_iff_eq] at h
    exact ⟨r, by rw [h.1], h.2⟩

/-- No name in a path is a dot. -/
theorem ne_nil_of_bytesOf_eq_dot {names : List RawText} (hnames : ∀ name ∈ names, IsEntryName name)
    {r : List UInt8} (h : Rule.bytesOf names = '.'.toUInt8 :: r) :
    r ≠ [] ∧ r.head? ≠ some slash := by
  cases names with
  | nil => cases h
  | cons name names =>
    have hname := hnames name List.mem_cons_self
    obtain ⟨b, bytes, hbytes⟩ := List.exists_cons_of_ne_nil hname.nonempty
    have hfront : ∃ more, Rule.bytesOf (name :: names) = name.bytes ++ more := by
      cases names with
      | nil => exact ⟨[], (List.append_nil _).symm⟩
      | cons n names => exact ⟨_, rfl⟩
    obtain ⟨more, hmore⟩ := hfront
    rw [hmore, hbytes, List.cons_append] at h
    obtain ⟨rfl, rfl⟩ := List.cons.inj h
    -- the dot is not all of the name, and what follows it there is no slash
    have hrest : bytes ≠ [] := by
      rintro rfl
      exact hname.notHere hbytes
    obtain ⟨c, bytes, rfl⟩ := List.exists_cons_of_ne_nil hrest
    refine ⟨List.cons_ne_nil _ _, fun hslash => hname.noSlash ?_⟩
    obtain rfl : c = Path.slash := Option.some.inj hslash
    rw [hbytes]
    exact List.mem_cons_of_mem _ List.mem_cons_self

/-- A line that asks for a name that is a dot applies to nothing. -/
theorem not_applies_of_here {line : String} (hline : ['.', '/'] <+: line.toList)
    {names : List RawText} (hnames : ∀ name ∈ names, IsEntryName name) (hne : names ≠ [])
    (isDirectory : Bool) : ¬ Applies line names isDirectory := by
  rintro ⟨r, hr, happlies⟩
  obtain ⟨hglob, -⟩ := Rule.parse_eq_ok_iff_body.mp hr
  obtain ⟨-, hreads⟩ := Bool.and_eq_true_iff.mp happlies
  obtain ⟨s, hs⟩ := hline
  obtain ⟨t, ht⟩ := Rule.prefix_trimmed_append (by decide : ∀ c ∈ ['.', '/'].getLast?, _) s
  rw [← hs, ← ht] at hglob
  rcases Rule.body_here t with hbody | ⟨u, hbody⟩
  · rw [hbody, parse_dot] at hglob
    have hne' : [.leading, .byte '.'.toUInt8] ≠ [Piece.leading] := nofun
    rw [← Except.ok.inj hglob, reads_eq_acceptsAll hne',
      acceptsAll_leading_iff hnames hne] at hreads
    obtain ⟨front, back, rfl, -, hback⟩ := hreads
    obtain ⟨r, hbytes, hempty⟩ := exists_cons_of_acceptsAll_byte hback
    have hnames' : ∀ name ∈ back, IsEntryName name :=
      fun name hname => hnames name (List.mem_append_right _ hname)
    exact (ne_nil_of_bytesOf_eq_dot hnames' hbytes).1 (List.isEmpty_iff.mp hempty)
  · rw [hbody] at hglob
    obtain ⟨q, rest, hpieces, hq⟩ := exists_of_parse_here hglob
    have hne' : .byte '.'.toUInt8 :: q :: rest ≠ [Piece.leading] := nofun
    rw [hpieces, reads_eq_acceptsAll hne'] at hreads
    obtain ⟨r, hbytes, haccepts⟩ := exists_cons_of_acceptsAll_byte hreads
    exact (ne_nil_of_bytesOf_eq_dot hnames hbytes).2 (hq.head?_eq haccepts)

/-! ## 3. Patterns for the base itself -/

namespace Rooted

section Cut

variable {pattern : String}

theorem dot_prefix_iff :
    ['.', '/'] <+: slashed pattern ↔ ∃ ps, (cut (components pattern)).1 = ['.'] :: ps := by
  constructor
  · rintro ⟨g, hg⟩
    have hcut := cut_split_append (by decide : ∀ c ∈ ['.'], isWildcard c = false) g
    rw [components, ← hg]
    exact ⟨_, congrArg Prod.fst hcut⟩
  · -- the glob keeps a component, so that a slash stands behind the dot
    rintro ⟨ps, hps⟩
    have hmore : ps ++ (cut (components pattern)).2 ≠ [] :=
      List.append_ne_nil_of_right_ne_nil _ (glob_components_ne_nil pattern)
    rw [slashed_eq_join, hps, List.cons_append, Text.join_cons hmore]
    exact ⟨_, rfl⟩

/-- A pattern for the base has nothing in front of its glob, or a dot. -/
theorem cut_of_here (h : (ofPattern pattern).root.components = [.here]) :
    (cut (components pattern)).1 = [] ∨ ['.', '/'] <+: slashed pattern := by
  rcases root_ofPattern_cases pattern with ⟨hliteral, -⟩ | ⟨-, hroot⟩ |
    ⟨hliteral, root, -, hroot, hjoin⟩
  · exact .inl hliteral
  · rw [hroot] at h
    exact absurd h (by decide)
  · right
    have hnoSlash : ∀ p ∈ (cut (components pattern)).1, '/' ∉ p := fun p hp =>
      not_mem_of_mem_cut pattern p (List.mem_append_left _ hp)
    have hfirst : (Text.split '/' root.toList).head? = some ['.'] := by
      by_contra hfirst
      rw [hroot] at h
      exact Path.components_ne_here hfirst h
    rw [hjoin, Text.split_join hliteral hnoSlash] at hfirst
    exact dot_prefix_iff.mpr (List.head?_eq_some_iff.mp hfirst)

theorem glob_of_cut (h : (cut (components pattern)).1 = []) :
    (ofPattern pattern).glob.toList = slashed pattern := by
  rw [toList_glob_ofPattern, slashed_eq_join, h, List.nil_append]

theorem head?_slashed_of_cut (h : (cut (components pattern)).1 = []) :
    (slashed pattern).head? ≠ some '/' := by
  rw [Ne, slashed, head?_eq_slash_iff]
  rintro ⟨ps, hps⟩
  exact absurd (h.symm.trans hps) (List.cons_ne_nil _ _).symm

end Cut
end Rooted

/-- With slashes, a pattern without a directory in front applies as a line of its own to what it
applies to as a pattern. -/
theorem applies_slashed {pattern line : String} (hline : line.toList = slashed pattern)
    (hcut : (Rooted.cut (components pattern)).1 = []) {names : List RawText}
    (hnames : ∀ name ∈ names, IsEntryName name) (hne : names ≠ [])
    (h : Applies (Rooted.ofPattern pattern).tied names false) : Applies line names false := by
  have hglob := Rooted.glob_of_cut hcut
  have hhead := Rooted.head?_slashed_of_cut hcut
  by_cases hstars : BeginsWithStars pattern
  · rw [tied_of_stars hstars] at h
    rwa [String.toList_inj.mp (hline.trans hglob.symm)]
  · have htied := toList_tied (hglob ▸ hhead) hstars
    unfold BeginsWithStars at hstars
    rw [hglob, ← hline] at htied hstars
    exact applies_of_tied htied (hline ▸ hhead) hstars hnames hne h

end Glob

/-! ## 4. Exclude patterns that make no difference -/

open Selection (Offers)

/-- The line applies to nothing that a walk comes to. -/
def Glob.IsIdle (line : String) : Prop :=
  ∀ names, names ≠ [] → (∀ name ∈ names, IsEntryName name) →
    ∀ isDirectory, ¬ Applies line names isDirectory

section Idle

variable {line : String} {excludes : List String}

theorem Selection.ofPatterns_of_cons {pattern : String} {s : Selection}
    (h : ofPatterns pattern (line :: excludes) = .ok s) :
    ∃ s', ofPatterns pattern excludes = .ok s' := by
  unfold ofPatterns at h ⊢
  obtain ⟨included, hincluded, h⟩ := bind_eq_ok h
  obtain ⟨excluded, hexcluded, -⟩ := bind_eq_ok h
  rw [List.mapM_cons] at hexcluded
  obtain ⟨r, -, hexcluded⟩ := bind_eq_ok hexcluded
  obtain ⟨rest, hrest, -⟩ := bind_eq_ok hexcluded
  rw [hincluded, hrest]
  exact ⟨⟨included, rest⟩, rfl⟩

theorem Selection.offers_cons_iff (hidle : Glob.IsIdle line) {entries : List (RawText × Node)}
    (hproper : (Node.directory entries).Proper) {names : List RawText} :
    Offers (line :: excludes) entries names ↔ Offers excludes entries names := by
  constructor
  · intro h
    refine ⟨h.isFile, h.shown, ?_, (List.forall_mem_cons.mp h.kept).2, h.isSource⟩
    intro before after heq hbefore hafter
    exact (List.forall_mem_cons.mp (h.entered before after heq hbefore hafter)).2
  · intro h
    have hnames := h.names hproper
    refine ⟨h.isFile, h.shown, ?_, ?_, h.isSource⟩
    · rintro before after rfl hbefore hafter
      refine List.forall_mem_cons.mpr ⟨?_, h.entered before after rfl hbefore hafter⟩
      exact hidle before hbefore (fun n hn => hnames n (List.mem_append_left _ hn)) true
    · exact List.forall_mem_cons.mpr ⟨hidle names h.ne_nil hnames false, h.kept⟩

/-- A run without an idle exclude pattern selects the same. -/
theorem FileSystem.select_of_cons {fs : FileSystem} (hproper : fs.Proper) {base : Path}
    {pattern : String} (hidle : Glob.IsIdle line) {files : List Path}
    (h : fs.select base pattern (line :: excludes) = .ok files) :
    fs.select base pattern excludes = .ok files := by
  obtain ⟨entries, s, hentries, hs, rfl⟩ := select_eq_ok_iff.mp h
  obtain ⟨s', hs'⟩ := Selection.ofPatterns_of_cons hs
  have hentriesProper : (Node.directory entries).Proper := Proper.directory? hproper hentries
  have hwalk := Selection.sorted_walk_congr s' s hentriesProper hentriesProper fun names => by
    rw [Selection.selects_iff hs, Selection.selects_iff hs',
      Selection.offers_cons_iff hidle hentriesProper]
  exact select_eq_ok_iff.mpr ⟨entries, s', hentries, hs', by rw [hwalk]⟩

end Idle

/-! ## 5. Runs -/

/-- A pattern for the base excludes, written with slashes, all that it selects, unless a dot stands
in front of it.  Then it excludes nothing. -/
theorem FileSystem.select_itself {fs : FileSystem} (hproper : fs.Proper) {base : Path}
    {pattern line : String} (hline : line.toList = Glob.slashed pattern)
    (hroot : (Glob.Rooted.ofPattern pattern).root.components = [.here]) {excludes : List String}
    {files : List Path} (h : fs.select base pattern (line :: excludes) = .ok files) :
    (¬ ['.', '/'] <+: Glob.slashed pattern → files = []) ∧
      (['.', '/'] <+: Glob.slashed pattern → fs.select base pattern excludes = .ok files) := by
  constructor
  · -- the line applies to whatever the pattern applies to: nothing is both offered and taken
    intro hdot
    have hcut := (Glob.Rooted.cut_of_here hroot).resolve_right hdot
    obtain ⟨entries, -, hentriesProper, hmem⟩ := mem_select_iff hproper h
    rw [List.eq_nil_iff_forall_not_mem]
    intro p hp
    obtain ⟨names, hoffers, happlies, -⟩ := (hmem p).mp hp
    have hnames := hoffers.names hentriesProper
    exact hoffers.kept line List.mem_cons_self
      (Glob.applies_slashed hline hcut hnames hoffers.ne_nil happlies)
  · intro hdot
    have hidle : Glob.IsIdle line :=
      fun _ hne hnames => Glob.not_applies_of_here (hline ▸ hdot) hnames hne
    exact select_of_cons hproper hidle h

section Example

namespace Glob.Rule

/-- The rule `**/*.ts`. -/
def everySource : Rule :=
  { glob := .leading :: .star :: ".ts".toList.flatMap literal, directoriesOnly := false }

/-- The rule `**\*.ts`, for names with a star in them. -/
def starredSource : Rule :=
  { glob := .leading :: .star :: .star :: "*.ts".toList.flatMap literal, directoriesOnly := false }

theorem parse_everySource : parse "" "**/*.ts" = .ok everySource := by
  have hbody : body (trimmed "**/*.ts".toList) = ['*', '*', '/', '*', '.', 't', 's'] := by decide
  rw [parse_eq_ok_iff_body, hbody]
  constructor
  · simp [Glob.parse, parseFrom, pushLiteral, afterStars]
    rfl
  · decide

theorem parse_starredSource : parse "" "**\\*.ts" = .ok starredSource := by
  have hbody : body (trimmed "**\\*.ts".toList) =
      ['*', '*', '/', '*', '*', '\\', '*', '.', 't', 's'] := by decide
  rw [parse_eq_ok_iff_body, hbody]
  constructor
  · simp [Glob.parse, parseFrom, pushLiteral, afterStars]
    rfl
  · decide

end Glob.Rule

theorem isEntryName_source : IsEntryName "a.ts" := ⟨by decide, by decide, by decide, by decide⟩

theorem ofPatterns_backslashed {line : String} {r : Rule} (h : Rule.parse "" line = .ok r) :
    Selection.ofPatterns "**\\*.ts" [line] = .ok ⟨.everySource, [r]⟩ := by
  have htied : (Glob.Rooted.ofPattern "**\\*.ts").tied = "**/*.ts" := by decide
  have hincluded := (Selection.rule_eq_ok_iff "**\\*.ts" "" "**/*.ts" _).mpr Rule.parse_everySource
  have hexcluded := (Selection.rule_eq_ok_iff line "!" line r).mpr h
  unfold Selection.ofPatterns
  rw [htied, hincluded, List.mapM_cons, hexcluded]
  rfl

theorem FileSystem.select_itself_backslashed :
    (singleFile "a.ts").Proper ∧ "**/*.ts".toList = Glob.slashed "**\\*.ts" ∧
      (Glob.Rooted.ofPattern "**\\*.ts").root.components = [.here] ∧
      (singleFile "a.ts").select ⟨"/"⟩ "**\\*.ts" ["**/*.ts"] = .ok [] := by
  have hproper := proper_singleFile isEntryName_source
  have hwalk : Selection.walkRoot ⟨"/"⟩ "**\\*.ts" = ⟨"/"⟩ := by decide
  have hslashed : "**/*.ts".toList = Glob.slashed "**\\*.ts" := by decide
  have hroot : (Glob.Rooted.ofPattern "**\\*.ts").root.components = [.here] := by decide
  have hselect := select_eq_ok_iff.mpr ⟨(singleFile "a.ts").entries, _,
    hwalk ▸ directory?_root (singleFile "a.ts"), ofPatterns_backslashed Rule.parse_everySource, rfl⟩
  obtain ⟨hempty, -⟩ := select_itself hproper hslashed hroot hselect
  rw [hempty (by decide)] at hselect
  exact ⟨hproper, hslashed, hroot, hselect⟩

/-- With a backslash in it a pattern does not exclude what it selects. -/
theorem FileSystem.select_backslash_kept :
    (singleFile "a.ts").Proper ∧ (Glob.Rooted.ofPattern "**\\*.ts").root = ⟨"."⟩ ∧
      (singleFile "a.ts").select ⟨"/"⟩ "**\\*.ts" ["**\\*.ts"] = .ok [⟨"/a.ts"⟩] := by
  have hwalk : Selection.walkRoot ⟨"/"⟩ "**\\*.ts" = ⟨"/"⟩ := by decide
  have hpath : Selection.pathOf ⟨"/"⟩ ["a.ts"] = ⟨"/a.ts"⟩ := by decide
  have hselect := select_singleFile hwalk (ofPatterns_backslashed Rule.parse_starredSource)
    (by decide : isSkippedName "a.ts" = false) (by decide) (by decide)
  rw [hpath] at hselect
  exact ⟨proper_singleFile isEntryName_source, by decide, hselect⟩

end Example

end MarkupCatalog

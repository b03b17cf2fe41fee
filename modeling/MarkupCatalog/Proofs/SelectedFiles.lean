import MarkupCatalog.Proofs.Attempts
import MarkupCatalog.Proofs.RawTexts
import MarkupCatalog.Proofs.Walk

/-!
# Selected files

What a pattern and exclude patterns select: the files below the root of the pattern that
`Selection.Collects` describes by the names that lead to them, in the order of paths.
-/

namespace MarkupCatalog

/-! ## 1. Patterns -/

namespace Glob

/-- A pattern can be read, and its rule applies to the file or directory at the end of a path. -/
def Applies (text : String) (names : List RawText) (isDirectory : Bool) : Prop :=
  ∃ r, Rule.parse "" text = .ok r ∧ r.applies names isDirectory = true

/-- What is shown in messages does not count. -/
theorem Rule.parse_eq_ok_iff (shown text : String) (r : Rule) :
    Rule.parse shown text = .ok r ↔ Rule.parse "" text = .ok r := by
  unfold Rule.parse
  dsimp only
  split
  next => exact Iff.rfl
  next => exact ⟨nofun, nofun⟩

/-- A rule with a slash in front is the glob behind it. -/
theorem Rule.parse_tied {shown text : String} {s : List Char} {glob : List Piece}
    (hline : trimmed text.toList = '/' :: s) (hend : s.getLast? ≠ some '/')
    (hwithin : withinOnly s = s) (hglob : Glob.parse s = .ok glob) :
    parse shown text = .ok { glob, directoriesOnly := false } := by
  unfold parse
  simp only [hline, List.head?_cons, List.tail_cons, if_true, hend, if_false, hwithin, hglob,
    decide_false]

end Glob

namespace Selection

theorem rule_eq_ok_iff (pattern shown text : String) (r : Glob.Rule) :
    rule pattern shown text = .ok r ↔ Glob.Rule.parse "" text = .ok r := by
  rw [← Glob.Rule.parse_eq_ok_iff shown]
  unfold rule
  cases Glob.Rule.parse shown text with
  | ok r' => exact ⟨fun h => by cases h; rfl, fun h => by cases h; rfl⟩
  | error e => exact ⟨nofun, nofun⟩

theorem applies_rule {pattern shown text : String} {r : Glob.Rule}
    (h : rule pattern shown text = .ok r) (names : List RawText) (isDirectory : Bool) :
    r.applies names isDirectory = true ↔ Glob.Applies text names isDirectory := by
  have hparse := (rule_eq_ok_iff pattern shown text r).mp h
  constructor
  · exact fun happlies => ⟨r, hparse, happlies⟩
  · rintro ⟨r', hparse', happlies⟩
    obtain rfl : r = r' := Except.ok.inj (hparse.symm.trans hparse')
    exact happlies

theorem any_applies_rules {excludes : List String} {rules : List Glob.Rule}
    (h : excludes.mapM (fun e => rule e "!" e) = .ok rules) (names : List RawText)
    (isDirectory : Bool) : (rules.any fun r => r.applies names isDirectory) = true ↔
      ∃ e ∈ excludes, Glob.Applies e names isDirectory := by
  induction excludes generalizing rules with
  | nil =>
    obtain rfl : [] = rules := Except.ok.inj h
    simp
  | cons e excludes ih =>
    rw [List.mapM_cons] at h
    obtain ⟨r, hrule, h⟩ := bind_eq_ok h
    obtain ⟨rest, hrest, h⟩ := bind_eq_ok h
    obtain rfl : r :: rest = rules := Except.ok.inj h
    rw [List.any_cons, Bool.or_eq_true, ih hrest, applies_rule hrule]
    simp only [List.mem_cons, exists_eq_or_imp]

/-- The rules of a selection are those of its patterns. -/
theorem applies_of_ofPatterns {pattern : String} {excludes : List String} {s : Selection}
    (h : ofPatterns pattern excludes = .ok s) (names : List RawText) (isDirectory : Bool) :
    (s.included.applies names isDirectory = true ↔
      Glob.Applies (Glob.Rooted.ofPattern pattern).tied names isDirectory) ∧
    (s.excludes names isDirectory = true ↔ ∃ e ∈ excludes, Glob.Applies e names isDirectory) := by
  unfold ofPatterns at h
  obtain ⟨included, hincluded, h⟩ := bind_eq_ok h
  obtain ⟨excluded, hexcluded, h⟩ := bind_eq_ok h
  obtain rfl : ⟨included, excluded⟩ = s := Except.ok.inj h
  exact ⟨applies_rule hincluded names isDirectory, any_applies_rules hexcluded names isDirectory⟩

theorem excludes_eq_false_iff {pattern : String} {excludes : List String} {s : Selection}
    (h : ofPatterns pattern excludes = .ok s) (names : List RawText) (isDirectory : Bool) :
    s.excludes names isDirectory = false ↔
      ∀ e ∈ excludes, ¬ Glob.Applies e names isDirectory := by
  rw [← Bool.not_eq_true, (applies_of_ofPatterns h names isDirectory).2]
  simp only [not_exists, not_and]

end Selection

/-! ## 2. Names -/

/-- The name of something hidden begins with a dot; those of directories with dependencies or build
output are fixed. -/
def IsHiddenName (name : RawText) : Prop :=
  name.bytes.head? = some Path.dot ∨ ∃ s ∈ outputNames, name = s

/-- Only of a name that is a text it is seen that it is hidden. -/
theorem isSkippedName_iff {name : RawText} :
    isSkippedName name = true ↔ name.text?.isSome = true ∧ IsHiddenName name := by
  unfold isSkippedName IsHiddenName
  cases htext : name.text? with
  | none => exact ⟨nofun, nofun⟩
  | some s =>
    obtain rfl := RawText.text?_eq_some_iff.mp htext
    have hhidden : (RawText.ofString s).bytes.head? = some Path.dot ↔ s.toList.head? = some '.' :=
      RawText.head?_bytes (by decide)
    rw [Option.any_some, Bool.or_eq_true, decide_eq_true_iff, decide_eq_true_iff, hhidden]
    constructor
    · rintro (h | h)
      · exact ⟨rfl, .inl h⟩
      · exact ⟨rfl, .inr ⟨s, h, rfl⟩⟩
    · rintro ⟨-, h | ⟨t, ht, heq⟩⟩
      · exact .inl h
      · exact .inr (RawText.ofString_injective heq ▸ ht)

/-- A dot and a byte that begins no character. -/
example : IsHiddenName ⟨[0x2e, 0xff]⟩ ∧ isSkippedName ⟨[0x2e, 0xff]⟩ = false :=
  ⟨.inl rfl, by decide⟩

/-- Every name in a tree can be read as a text. -/
def Node.IsReadable (node : Node) : Prop :=
  ∀ names child, node.at? names = some child → ∀ name ∈ names, name.text?.isSome = true

theorem Node.IsReadable.file (content : ByteArray) : (Node.file content).IsReadable := by
  intro names child hchild name hname
  cases names with
  | nil => cases hname
  | cons => cases hchild

theorem Node.IsReadable.directory {entries : List (RawText × Node)}
    (hnames : ∀ e ∈ entries, e.1.text?.isSome = true) (hinside : ∀ e ∈ entries, e.2.IsReadable) :
    (Node.directory entries).IsReadable := by
  intro names child hchild name hname
  cases names with
  | nil => cases hname
  | cons n names =>
    rw [at?_directory] at hchild
    obtain ⟨next, hnext, hchild⟩ := Option.bind_eq_some_iff.mp hchild
    have hmem := Node.mem_of_named? hnext
    rcases List.mem_cons.mp hname with rfl | hname
    · exact hnames _ hmem
    · exact hinside _ hmem names child hchild name hname

/-! ## 3. Files -/

theorem FileSystem.bytes_ne_nil_of_directory? {fs : FileSystem} {p : Path}
    {entries : List (RawText × Node)} (h : fs.directory? p = some entries) : p.raw.bytes ≠ [] := by
  intro hempty
  have hlocate (followLast : Bool) : fs.locate followLast p = .error .notFound := if_pos hempty
  unfold directory? node? target at h
  rw [hlocate] at h
  cases h

namespace Selection

/-- A file that patterns select below the directory at `root`: real directories lead to it, no name
is one that `skips` names, no exclude pattern applies to it or to a directory on the way, the
pattern applies to it, and its name is that of a file with source text that does more than declare
types. -/
inductive Collects (skips : RawText → Prop) (pattern : String) (excludes : List String)
    (root : Path) (entries : List (RawText × Node)) : Path → Prop
  | intro (names : List RawText) (content : ByteArray)
      (isFile : (Node.directory entries).at? names = some (.file content))
      (shown : ∀ name ∈ names, ¬ skips name)
      (entered : ∀ before after, names = before ++ after → before ≠ [] → after ≠ [] →
        ∀ e ∈ excludes, ¬ Glob.Applies e before true)
      (kept : ∀ e ∈ excludes, ¬ Glob.Applies e names false)
      (included : Glob.Applies (Glob.Rooted.ofPattern pattern).tied names false)
      (dialect : (Dialect.ofPath (pathOf root names)).isOk = true)
      (declaresMore : (pathOf root names).isDeclarationFile = false) :
      Collects skips pattern excludes root entries (pathOf root names)

/-- Only the names that lead to a file are asked about. -/
theorem Collects.congr {skips skips' : RawText → Prop} {pattern : String} {excludes : List String}
    {root p : Path} {entries : List (RawText × Node)}
    (hskips : ∀ names child, (Node.directory entries).at? names = some child → ∀ name ∈ names,
      skips' name → skips name)
    (h : Collects skips pattern excludes root entries p) :
    Collects skips' pattern excludes root entries p := by
  obtain ⟨names, content, isFile, shown, entered, kept, included, dialect, declaresMore⟩ := h
  exact .intro names content isFile
    (fun name hname hskip => shown name hname (hskips names _ isFile name hname hskip))
    entered kept included dialect declaresMore

end Selection

theorem FileSystem.select_eq_ok_iff {fs : FileSystem} {base : Path} {pattern : String}
    {excludes : List String} {files : List Path} :
    fs.select base pattern excludes = .ok files ↔
      ∃ entries s, fs.directory? (Selection.walkRoot base pattern) = some entries ∧
        Selection.ofPatterns pattern excludes = .ok s ∧
        (Selection.sorted (s.walk [] entries)).map
          (Selection.pathOf (Selection.walkRoot base pattern)) = files := by
  unfold select
  dsimp only
  cases fs.directory? (Selection.walkRoot base pattern) with
  | none => exact ⟨nofun, nofun⟩
  | some entries =>
    cases Selection.ofPatterns pattern excludes with
    | error e => exact ⟨nofun, nofun⟩
    | ok s =>
      constructor
      · exact fun h => ⟨entries, s, rfl, rfl, Except.ok.inj h⟩
      · rintro ⟨_, _, h, h', hfiles⟩
        cases h
        cases h'
        exact congrArg _ hfiles

section Example

def twoFiles : FileSystem := ⟨[("b.ts", .file .empty), ("a.ts", .file .empty)]⟩

theorem proper_twoFiles : twoFiles.Proper := by
  have hname : IsEntryName "a.ts" := ⟨by decide, by decide, by decide, by decide⟩
  have hname' : IsEntryName "b.ts" := ⟨by decide, by decide, by decide, by decide⟩
  exact (Node.Proper.nil.cons hname (by decide) (.file _)).cons hname' (by decide) (.file _)

theorem directory?_root (fs : FileSystem) : fs.directory? ⟨"/"⟩ = some fs.entries := by
  have hcomponents : Path.components ⟨"/"⟩ = [.root] := by decide
  unfold FileSystem.directory? FileSystem.node? FileSystem.target FileSystem.locate
  rw [hcomponents, FileSystem.follow_root, FileSystem.follow_nil rfl]
  rfl

namespace Glob.Rule

/-- The rule `/*.ts`. -/
def anySource : Rule := { glob := .star :: ".ts".toList.flatMap literal, directoriesOnly := false }

/-- The rule `/b.ts`. -/
def oneSource : Rule := { glob := "b.ts".toList.flatMap literal, directoriesOnly := false }

theorem parse_anySource : parse "" "/*.ts" = .ok anySource := by
  have hglob : Glob.parse ['*', '.', 't', 's'] = .ok anySource.glob := by
    simp [Glob.parse, parseFrom, pushLiteral]
    rfl
  exact parse_tied rfl (by decide) rfl hglob

theorem parse_oneSource : parse "!" "/b.ts" = .ok oneSource := by
  have hglob : Glob.parse ['b', '.', 't', 's'] = .ok oneSource.glob := by
    simp [Glob.parse, parseFrom, pushLiteral]
    rfl
  exact parse_tied rfl (by decide) rfl hglob

end Glob.Rule

theorem ofPatterns_sources : Selection.ofPatterns "*.ts" ["/b.ts"] =
    .ok { included := .anySource, excluded := [.oneSource] } := by
  have htied : (Glob.Rooted.ofPattern "*.ts").tied = "/*.ts" := by decide
  unfold Selection.ofPatterns Selection.rule
  rw [htied, Glob.Rule.parse_anySource]
  simp [Glob.Rule.parse_oneSource]
  rfl

theorem select_root (fs : FileSystem) : fs.select ⟨"/"⟩ "*.ts" ["/b.ts"] =
    .ok ((Selection.sorted ((Selection.mk .anySource [.oneSource]).walk [] fs.entries)).map
      (Selection.pathOf ⟨"/"⟩)) := by
  have hroot : Selection.walkRoot ⟨"/"⟩ "*.ts" = ⟨"/"⟩ := by decide
  rw [FileSystem.select_eq_ok_iff, hroot]
  exact ⟨fs.entries, _, directory?_root fs, ofPatterns_sources, rfl⟩

theorem walk_twoFiles :
    (Selection.mk .anySource [.oneSource]).walk [] twoFiles.entries = [[.ofString "a.ts"]] := by
  rw [Selection.walk_eq_flatMap]
  decide

theorem select_twoFiles : twoFiles.select ⟨"/"⟩ "*.ts" ["/b.ts"] = .ok [⟨"/a.ts"⟩] := by
  have hpath : Selection.pathOf ⟨"/"⟩ ["a.ts"] = ⟨"/a.ts"⟩ := by decide
  rw [select_root, walk_twoFiles, Selection.sorted, List.mergeSort_singleton, List.map_singleton,
    hpath]

end Example

end MarkupCatalog

import MarkupCatalog.Glob.Basic

/-!
# Glob texts

The text of a glob: `?` and `*`, `**` as a whole component, classes in brackets, alternatives in
braces, and a backslash in front of a character that stands for itself.
-/

namespace MarkupCatalog.Glob

inductive Fault where
  | unclosedClass
  | invalidRange (lo hi : Char)
  | unopenedBraces
  | unclosedBraces
  | danglingEscape
  deriving DecidableEq, Repr

def Fault.message : Fault → String
  | unclosedClass => "unclosed character class; missing ']'"
  | invalidRange lo hi =>
    "invalid range; '" ++ String.singleton lo ++ "' > '" ++ String.singleton hi ++ "'"
  | unopenedBraces =>
    "unopened alternate group; missing '\x7b' (maybe escape '\x7d' with '[\x7d]'?)"
  | unclosedBraces =>
    "unclosed alternate group; missing '\x7d' (maybe escape '\x7b' with '[\x7b]'?)"
  | danglingEscape => "dangling '\\'"

/-! ## 1. Characters -/

/-- The pieces that read one character. -/
def literal (c : Char) : List Piece := (String.utf8EncodeChar c).map .byte

/-- Puts the pieces of a character in front of pieces in reverse order. -/
def pushLiteral (c : Char) (ps : List Piece) : List Piece := (literal c).reverse ++ ps

/-! ## 2. Classes -/

/-- The ranges of a class, last one first. A hyphen between two characters makes a range of them;
`pending` says that the hyphen has been read and the end has not. -/
def rangesOf (ranges : List (Char × Char)) (pending : Bool) :
    List Char → Except Fault (List (Char × Char))
  | [] => .ok (if pending then ('-', '-') :: ranges else ranges)
  | c :: r =>
    match ranges, pending with
    | (lo, _) :: others, true =>
      if c < lo then .error (.invalidRange lo c) else rangesOf ((lo, c) :: others) false r
    | _, _ =>
      if c = '-' && !ranges.isEmpty then rangesOf ranges true r
      else rangesOf ((c, c) :: ranges) false r

/-- The bytes that a range of characters admits: those of its ends, and those between the last
byte of the first and the first byte of the last. -/
def byteRanges : Char × Char → List (UInt8 × UInt8)
  | (lo, hi) =>
    let single (b : UInt8) := (b, b)
    let first := String.utf8EncodeChar lo
    if lo = hi then first.map single
    else
      let last := String.utf8EncodeChar hi
      first.dropLast.map single ++ [(first.getLastD 0, last.headD 0)] ++ last.tail.map single

/-- A class after its opening bracket, and what follows it. A closing bracket that comes first
stands for itself. -/
def classOf (s : List Char) : Except Fault (Piece × List Char) :=
  let negated := s.head? = some '!' || s.head? = some '^'
  let s := if negated then s.tail else s
  let body := s.take 1 ++ s.tail.takeWhile (· ≠ ']')
  (rangesOf [] false body).bind fun ranges =>
    match s.tail.dropWhile (· ≠ ']') with
    | [] => .error .unclosedClass
    | _ :: r => .ok (.oneOf negated (ranges.reverse.flatMap byteRanges), r)

theorem length_of_classOf {s r : List Char} {p : Piece} (h : classOf s = .ok (p, r)) :
    r.length < s.length := by
  have shorter (t : List Char) (hd : t.tail.dropWhile (· ≠ ']') ≠ []) :
      (t.tail.dropWhile (· ≠ ']')).length ≤ t.length := by
    have := (List.dropWhile_sublist (l := t.tail) (· ≠ ']')).length_le
    simp only [List.length_tail] at this
    omega
  have tail (t : List Char) : t.tail.length ≤ t.length := by simp
  simp only [classOf, Except.bind] at h
  split at h
  · cases h
  · split at h
    · cases h
    · rename_i c r' hd
      injection h with h
      injection h with _ h
      subst h
      have hle := shorter _ (by rw [hd]; simp)
      rw [hd] at hle
      have := tail s
      split at hle <;> simp only [List.length_cons] at hle <;> omega

/-! ## 3. Alternatives -/

/-- A group that is not closed: the pieces before it, last one first, and its branches so far, last
one first. -/
structure Group where
  before : List Piece
  branches : List (List Piece)

/-- A group of empty branches reads nothing. -/
def Piece.isVoid : Piece → Bool
  | .either [[]] => true
  | _ => false

/-- A group with its branches in order. Empty branches do not count beside others. -/
def Piece.ofBranches (branches : List (List Piece)) : Piece :=
  match branches.filter fun ps => !ps.all Piece.isVoid with
  | [] => .either [[]]
  | kept => .either kept

/-! ## 4. Globs -/

/-- The piece for two stars that follow a slash, in place of the piece for that slash. -/
def merge (stars : Piece) : Piece → Piece
  | .leading => .leading
  | .trailing => .trailing
  | _ => stars

/-- The pieces, the last character and the text after two stars. They stand for directories where
they are a whole component, and for two stars elsewhere. `grouped` says that a group is open. -/
def afterStars (last : Option Char) (grouped : Bool) (ps : List Piece) (r : List Char) :
    List Piece × Char × List Char :=
  let plain := (.star :: .star :: ps, '*', r)
  match ps with
  | [] =>
    match r with
    | [] => ([.leading], '*', [])
    | c :: r => if c = '/' then ([.leading], '/', r) else plain
  | p :: before =>
    if last = some '/' || (grouped && (last = some ',' || last = some '\x7b')) then
      match r with
      | [] => (merge .trailing p :: before, '*', [])
      | c :: r =>
        if c = '/' then (merge .between p :: before, '/', r)
        else if grouped && (c = ',' || c = '\x7d') then (merge .trailing p :: before, '*', c :: r)
        else plain
    else plain

theorem length_afterStars (last : Option Char) (grouped : Bool) (ps : List Piece) (r : List Char) :
    (afterStars last grouped ps r).2.2.length ≤ r.length := by
  fun_cases afterStars last grouped ps r <;> simp +zetaDelta

/-- Reads a glob. `last` is the character before, `groups` are the open groups, innermost first,
and `ps` are the pieces since the innermost one began its branch, last one first. -/
def parseFrom (last : Option Char) (groups : List Group) (ps : List Piece) (s : List Char) :
    Except Fault (List Piece) :=
  match s with
  | [] => if groups.isEmpty then .ok ps.reverse else .error .unclosedBraces
  | '?' :: r => parseFrom (some '?') groups (.anyByte :: ps) r
  | '*' :: '*' :: r =>
    have := length_afterStars last (!groups.isEmpty) ps r
    let after := afterStars last (!groups.isEmpty) ps r
    parseFrom (some after.2.1) groups after.1 after.2.2
  | '*' :: r => parseFrom (some '*') groups (.star :: ps) r
  | '[' :: r =>
    match h : classOf r with
    | .error e => .error e
    | .ok (p, r') =>
      have := length_of_classOf h
      parseFrom (some ']') groups (p :: ps) r'
  | '\x7b' :: r => parseFrom (some '\x7b') (⟨ps, []⟩ :: groups) [] r
  | '\x7d' :: r =>
    match groups with
    | [] => .error .unopenedBraces
    | g :: groups =>
      let group := Piece.ofBranches (ps.reverse :: g.branches).reverse
      parseFrom (some '\x7d') groups (group :: g.before) r
  | ',' :: r =>
    match groups with
    | [] => parseFrom (some ',') [] (pushLiteral ',' ps) r
    | g :: groups =>
      parseFrom (some ',') ({ g with branches := ps.reverse :: g.branches } :: groups) [] r
  | '\\' :: r =>
    match r with
    | [] => .error .danglingEscape
    | c :: r => parseFrom (some c) groups (pushLiteral c ps) r
  | c :: r => parseFrom (some c) groups (pushLiteral c ps) r
termination_by s.length

def parse (s : List Char) : Except Fault (List Piece) := parseFrom none [] [] s

end MarkupCatalog.Glob

import MarkupCatalog.Tree.Basic

/-!
# Reading positions

A `Reader` stands behind the last token that was read. Blanks and comments in front of the next
token are split off once, so that a token is read at `next` and brings the comments before it along.
-/

namespace MarkupCatalog

/-! ## 1. Character classes -/

/-- Line terminators that end a line comment. -/
def isLineEnd (c : Char) : Bool :=
  c == '\n' || c == '\r' || c == '\u2028' || c == '\u2029'

/-- The space separators of Unicode. -/
def isSpaceSeparator (c : Char) : Bool :=
  c == ' ' || c == '\u00a0' || c == '\u1680' || ('\u2000' ≤ c && c ≤ '\u200a') ||
    c == '\u202f' || c == '\u205f' || c == '\u3000'

/-- Blanks between tokens: ASCII white space, the space separators, the line and paragraph
separators and three invisible characters. -/
def isGap (c : Char) : Bool :=
  ('\t' ≤ c && c ≤ '\r') || isSpaceSeparator c || c == '\u2028' || c == '\u2029' ||
    c == '\ufeff' || c == '\u2060' || c == '\u200b'

/-! ## 2. Comments -/

/-- The comment up to and with its closing `*/`; the opening is already read. -/
def readBlockTail : List Char → Option (List Char × List Char)
  | [] => none
  | '*' :: '/' :: r => some (['*', '/'], r)
  | c :: r => (readBlockTail r).map fun (s, t) => (c :: s, t)

/-- A line comment or a closed block comment at the start of a text. -/
def readComment : List Char → Option (List Char × List Char)
  | '/' :: '/' :: r =>
    let (s, t) := r.span fun c => !isLineEnd c
    some ('/' :: '/' :: s, t)
  | '/' :: '*' :: r => (readBlockTail r).map fun (s, t) => ('/' :: '*' :: s, t)
  | _ => none

/-- The comments among the leading blanks and comments, the text behind them and how many
characters they take. Every round of `fuel` takes a blank or a comment. -/
def splitTrivia : Nat → List Char → List Tree × List Char × Nat
  | 0, s => ([], s, 0)
  | fuel + 1, s =>
    match s with
    | [] => ([], [], 0)
    | c :: r =>
      if isGap c then
        let (cs, t, n) := splitTrivia fuel r
        (cs, t, n + 1)
      else match readComment s with
        | none => ([], s, 0)
        | some (text, rest) =>
          let (cs, t, n) := splitTrivia fuel rest
          (.leaf .comment (String.ofList text) :: cs, t, n + text.length)

/-! ## 3. Readers -/

/-- A position in a source text. -/
structure Reader where
  /-- The text behind the last token. -/
  rest : List Char
  /-- The length of `rest`. -/
  left : Nat
  /-- The comments in front of the next token. -/
  comments : List Tree
  /-- The text from the next token on. -/
  next : List Char
  /-- The length of `next`. -/
  nextLeft : Nat

namespace Reader

/-- The position in front of `rest`, which has `left` characters. -/
def before (rest : List Char) (left : Nat) : Reader :=
  let (comments, next, skipped) := splitTrivia (left + 1) rest
  { rest, left, comments, next, nextLeft := left - skipped }

def ofText (s : List Char) : Reader := before s s.length

/-- The text between the next token of `start` and the last token before `stop`. -/
def slice (start stop : Reader) : String :=
  String.ofList (start.next.take (start.nextLeft - stop.left))

/-- Whether the next token stands on the line of the last one. -/
def sameLine (r : Reader) : Bool :=
  (r.rest.take (r.left - r.nextLeft)).all fun c => !isLineEnd c

end Reader
end MarkupCatalog

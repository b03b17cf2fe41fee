import MarkupCatalog.Doc.Basic
import MarkupCatalog.Text.Blank
import MarkupCatalog.Text.Word

/-!
# Reading documentation comments

A documentation comment is a block comment that opens with two asterisks. Its lines lose their
indentation and one asterisk; a line that starts with an at sign and a name starts a block tag, and
the lines up to the next one belong to it.
-/

namespace MarkupCatalog.Doc

open Text

/-! ## 1. Comments and lines -/

def opening : List Char := ['/', '*', '*']

def closing : List Char := ['*', '/']

/-- Whether a comment documents what follows it. The empty block comment, which also starts with
the opening, does not. -/
def isDocComment (raw : String) : Bool :=
  let s := raw.toList
  (after? opening s).isSome && (after? ['/', '*', '*', '/'] s).isNone && (before? closing s).isSome

/-- A line without its indentation, its asterisk and one space behind that, and without the blanks
at its end. -/
def stripGutter (line : List Char) : List Char :=
  let s := trimStart line
  let s := match s with
    | '*' :: r => r
    | _ => s
  let s := match s with
    | ' ' :: r => r
    | _ => s
  trimEnd s

/-- The name and the rest of a line that starts a block tag. -/
def tagLine? : List Char → Option (List Char × List Char)
  | '@' :: c :: r =>
    if c.isAlpha || c == '_' then
      let (w, rest) := r.span isWordChar
      some (c :: w, trimStart rest)
    else none
  | _ => none

/-! ## 2. Tag texts -/

/-- What stands behind a type in braces and the blanks after it; the whole text where it does not
start with a type. -/
def dropType : List Char → List Char
  | '\x7b' :: r =>
    match r.dropWhile (· ≠ '\x7d') with
    | _ :: t => trimStart t
    | [] => '\x7b' :: r
  | s => s

/-- The name at the start of a parameter's text, in brackets or up to a blank, and the rest. -/
def splitName (s : List Char) : List Char × List Char :=
  match s with
  | '[' :: r =>
    match r.span (· ≠ ']') with
    | (w, c :: t) => ('[' :: w ++ [c], t)
    | (_, []) => s.span fun c => !isBlank c
  | _ => s.span fun c => !isBlank c

/-- What stands behind a dash that blanks follow; the whole text where there is none. -/
def dropDash : List Char → List Char
  | '-' :: c :: r => if isBlank c then trimStart r else '-' :: c :: r
  | s => s

/-- The name without brackets and default. -/
def bareName (s : List Char) : List Char :=
  let s := s.dropWhile (· = '[')
  let s := (s.reverse.dropWhile (· = ']')).reverse
  trim (s.takeWhile (· ≠ '='))

/-- The entry of a parameter with the text `s`. -/
def readParameter (s : List Char) : Tag :=
  let (name, rest) := splitName (dropType s)
  .parameter (String.ofList (bareName name)) (String.ofList (trim (dropDash (trimStart rest))))

/-- The tags whose text may open with a type. -/
def typedTags : List String := ["returns", "return", "throws", "type"]

/-- A block tag with its lines. -/
def readTag (name : List Char) (lines : List (List Char)) : Tag :=
  let text := trim (join ['\n'] (lines.map trim))
  let name := String.ofList name
  if name = "param" then readParameter text
  else if name ∈ typedTags then .plain name (String.ofList (trim (dropType text)))
  else .plain name (String.ofList text)

/-! ## 3. Comments -/

/-- The lines before the first block tag, and every block tag with its lines. -/
def sections : List (List Char) → List (List Char) × List (List Char × List (List Char))
  | [] => ([], [])
  | l :: ls =>
    let (head, tags) := sections ls
    match tagLine? l with
    | some (name, rest) => ([], (name, rest :: head) :: tags)
    | none => (l :: head, tags)

/-- The lines of a comment's content, without their gutters. -/
def contentLines (raw : List Char) : List (List Char) :=
  let body := (after? opening raw).getD raw
  let body := (before? closing body).getD body
  (Text.lines body).map stripGutter

/-- The content of a documentation comment. -/
def parse (raw : String) : Doc :=
  let (head, tags) := sections (contentLines raw.toList)
  { ofSummary (String.ofList (trim (join ['\n'] head))) with
    tags := tags.map fun (name, lines) => readTag name lines }

end MarkupCatalog.Doc

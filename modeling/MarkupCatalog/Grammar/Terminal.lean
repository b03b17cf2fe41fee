import MarkupCatalog.Grammar.Reader
import MarkupCatalog.Text.Blank

/-!
# Terminals

The lexical elements of TypeScript. A terminal is read at a `Reader` and gives the nodes it stands
for, with the comments in front of it, and the position behind it.
-/

namespace MarkupCatalog

/-! ## 1. Words, operators and numbers -/

/-- The ASCII characters that no word contains: blanks, controls, and all signs but two. -/
def isWordBreak (c : Char) : Bool :=
  c ≤ ' ' || (c < '\x7f' && !c.isAlphanum && c != '_' && c != '$')

def isWordPart (c : Char) : Bool := !isWordBreak c && !isGap c

def isHexDigit (c : Char) : Bool :=
  c.isDigit || ('a' ≤ c && c ≤ 'f') || ('A' ≤ c && c ≤ 'F')

/-- A Unicode escape that stands for one character of a word. -/
def readWordEscape : List Char → Option (List Char × List Char)
  | '\\' :: 'u' :: '\x7b' :: r =>
    let (digits, t) := r.span isHexDigit
    match digits, t with
    | _ :: _, '\x7d' :: t => some ('\\' :: 'u' :: '\x7b' :: digits ++ ['\x7d'], t)
    | _, _ => none
  | '\\' :: 'u' :: a :: b :: c :: d :: r =>
    if [a, b, c, d].all isHexDigit then some (['\\', 'u', a, b, c, d], r) else none
  | _ => none

/-- The longest run of word characters and escapes. `pending` characters of an escape are still to
be taken. -/
def readWordTail (pending : Nat) : List Char → List Char × List Char
  | [] => ([], [])
  | c :: r =>
    let more (pending : Nat) : List Char × List Char :=
      let (w, t) := readWordTail pending r
      (c :: w, t)
    match pending with
    | n + 1 => more n
    | 0 =>
      if isWordPart c then more 0
      else match readWordEscape (c :: r) with
        | none => ([], c :: r)
        | some (e, _) => more (e.length - 1)

/-- The word at the start of a text; it does not start with a digit. -/
def readWord (s : List Char) : Option (List Char × List Char) :=
  match s with
  | [] => none
  | c :: _ =>
    if c.isDigit then none
    else match readWordTail 0 s with
      | ([], _) => none
      | w => some w

/-- Words that name no variable. -/
def reservedWords : List String :=
  ["break", "case", "catch", "class", "const", "continue", "debugger", "default", "delete", "do",
    "else", "enum", "export", "extends", "false", "finally", "for", "function", "if", "import",
    "in", "instanceof", "new", "null", "return", "super", "switch", "this", "throw", "true", "try",
    "typeof", "var", "void", "while", "with"]

/-- The operators of expressions, longest first. -/
def operators : List String :=
  [">>>=", "...", "===", "!==", "**=", "<<=", ">>=", ">>>", "&&=", "||=", "??=", "=>", "==", "!=",
    "<=", ">=", "&&", "||", "??", "?.", "++", "--", "+=", "-=", "*=", "/=", "%=", "&=", "|=", "^=",
    "<<", ">>", "**", "<", ">", "=", "+", "-", "*", "/", "%", "&", "|", "^", "!", "~", "?", ":",
    "."]

/-- The longest operator at the start of a text. A question mark in front of `.5` stands alone. -/
def readOperator (s : List Char) : Option (List Char × List Char) :=
  operators.findSome? fun o =>
    match Text.after? o.toList s with
    | none => none
    | some t =>
      if o == "?." && (t.head?.map Char.isDigit).getD false then none else some (o.toList, t)

/-- Digits of a class with single underscores between them. -/
def readDigits (isDigit : Char → Bool) : List Char → List Char × List Char
  | '_' :: d :: r =>
    if isDigit d then
      let (w, t) := readDigits isDigit r
      ('_' :: d :: w, t)
    else ([], '_' :: d :: r)
  | d :: r =>
    if isDigit d then
      let (w, t) := readDigits isDigit r
      (d :: w, t)
    else ([], d :: r)
  | [] => ([], [])

/-- The exponent of a decimal number, empty where there is none. -/
def readExponent : List Char → List Char × List Char
  | e :: r =>
    if e == 'e' || e == 'E' then
      let (sign, u) := match r with
        | '+' :: u => (['+'], u)
        | '-' :: u => (['-'], u)
        | u => ([], u)
      match u with
      | d :: _ =>
        if d.isDigit then
          let (w, t) := readDigits Char.isDigit u
          (e :: sign ++ w, t)
        else ([], e :: r)
      | [] => ([], e :: r)
    else ([], e :: r)
  | [] => ([], [])

/-- The mark of a big integer, empty where there is none. -/
def readBigMark : List Char → List Char × List Char
  | 'n' :: t => (['n'], t)
  | t => ([], t)

/-- A number in a base that a letter after the zero names. -/
def readBased (lower upper : Char) (isDigit : Char → Bool) :
    List Char → Option (List Char × List Char)
  | '0' :: x :: d :: r =>
    if (x == lower || x == upper) && isDigit d then
      let (w, t) := readDigits isDigit (d :: r)
      let (n, t) := readBigMark t
      some ('0' :: x :: w ++ n, t)
    else none
  | _ => none

/-- A decimal number with its fraction and exponent, or a big integer. -/
def readDecimal (s : List Char) : Option (List Char × List Char) :=
  match s with
  | '.' :: d :: r =>
    if d.isDigit then
      let (w, t) := readDigits Char.isDigit (d :: r)
      let (e, t) := readExponent t
      some ('.' :: w ++ e, t)
    else none
  | d :: _ =>
    if d.isDigit then
      let (w, t) := readDigits Char.isDigit s
      match t with
      | 'n' :: t => some (w ++ ['n'], t)
      | '.' :: t =>
        let (f, t) := match t with
          | d :: _ => if d.isDigit then readDigits Char.isDigit t else ([], t)
          | [] => ([], [])
        let (e, t) := readExponent t
        some (w ++ '.' :: f ++ e, t)
      | t =>
        let (e, t) := readExponent t
        some (w ++ e, t)
    else none
  | [] => none

def readNumber (s : List Char) : Option (List Char × List Char) :=
  readBased 'x' 'X' isHexDigit s <|>
  readBased 'b' 'B' (fun c => c == '0' || c == '1') s <|>
  readBased 'o' 'O' (fun c => '0' ≤ c && c ≤ '7') s <|>
  readDecimal s

/-! ## 2. Strings, templates and regular expressions -/

/-- An escape sequence of a string or a template, as written. -/
def readEscape : List Char → Option (List Char × List Char)
  | '\\' :: 'u' :: '\x7b' :: r =>
    let (digits, t) := r.span isHexDigit
    match digits, t with
    | _ :: _, '\x7d' :: t => some ('\\' :: 'u' :: '\x7b' :: digits ++ ['\x7d'], t)
    | _, _ => none
  | '\\' :: 'u' :: a :: b :: c :: d :: r =>
    if [a, b, c, d].all isHexDigit then some (['\\', 'u', a, b, c, d], r) else none
  | '\\' :: 'x' :: a :: b :: r =>
    if isHexDigit a && isHexDigit b then some (['\\', 'x', a, b], r) else none
  | '\\' :: '\r' :: '\n' :: r => some (['\\', '\r', '\n'], r)
  | '\\' :: c :: r =>
    if c == 'u' || c == 'x' then none
    else if '0' ≤ c && c ≤ '7' then
      let (w, _) := (c :: r).span fun d => '0' ≤ d && d ≤ '7'
      let digits := w.take 3
      some ('\\' :: digits, (c :: r).drop digits.length)
    else some (['\\', c], r)
  | _ => none

/-- The parts of a quoted string behind its opening `quote`, up to and with the closing one. Every
round of `fuel` takes a part. -/
def readQuoted (quote : Char) : Nat → List Char → Option (List Tree × List Char)
  | 0, _ => none
  | fuel + 1, s =>
    match s with
    | [] => none
    | c :: r =>
      if c = quote then some ([.leaf .token (String.singleton quote)], r)
      else if c == '\\' then do
        let (e, r) ← readEscape s
        let (parts, t) ← readQuoted quote fuel r
        some (.leaf .escapeSequence (String.ofList e) :: parts, t)
      else do
        let (f, t) := s.span fun d => d != quote && d != '\\' && d != '\r' && d != '\n'
        guard !f.isEmpty
        let (parts, t) ← readQuoted quote fuel t
        some (.leaf .stringFragment (String.ofList f) :: parts, t)

/-- A quoted string: its parts, with both quotes. The text has `size` characters. -/
def readString (size : Nat) : List Char → Option (List Tree × List Char)
  | q :: r =>
    if q == '\x22' || q == '\x27' then
      (readQuoted q size r).map fun (parts, t) =>
        (.leaf .token (String.singleton q) :: parts, t)
    else none
  | [] => none

/-- The characters of a template up to the next back quote, escape or substitution. -/
def readTemplateChars : List Char → List Char × List Char
  | [] => ([], [])
  | '$' :: '\x7b' :: r => ([], '$' :: '\x7b' :: r)
  | c :: r =>
    if c == '\x60' || c == '\\' then ([], c :: r)
    else
      let (w, t) := readTemplateChars r
      (c :: w, t)

/-- The body of a regular expression up to and with its closing slash; `inClass` tells that a
bracket is open. -/
def readRegexTail (inClass : Bool) : List Char → Option (List Char × List Char)
  | '\\' :: c :: r =>
    if c == '\n' then none else (readRegexTail inClass r).map fun (w, t) => ('\\' :: c :: w, t)
  | c :: r =>
    if c == '\n' then none
    else if c == '/' && !inClass then some (['/'], r)
    else
      let inClass := if c == '[' then true else if c == ']' then false else inClass
      (readRegexTail inClass r).map fun (w, t) => (c :: w, t)
  | [] => none

/-- A regular expression with its flags. -/
def readRegex : List Char → Option (List Char × List Char)
  | '/' :: r => do
    let (body, t) ← readRegexTail false r
    guard (body != ['/'])
    let (flags, t) := t.span fun c => 'a' ≤ c && c ≤ 'z'
    some ('/' :: body ++ flags, t)
  | [] => none
  | _ => none

/-! ## 3. Markup in expressions -/

/-- Whether text between markup tags holds more than blanks around line breaks. `atBreak` tells
that only blanks stand behind the last line break. -/
def hasMarkupText (atBreak : Bool) : List Char → Bool
  | [] => false
  | c :: r =>
    if c == '\n' then hasMarkupText true r
    else if atBreak && isGap c then hasMarkupText true r
    else true

def readMarkupText (s : List Char) : Option (List Char × List Char) :=
  let (w, t) := s.span fun c => !(c == '<' || c == '>' || c == '\x7b' || c == '\x7d' || c == '&')
  if hasMarkupText false w then some (w, t) else none

/-- A name of a tag or an attribute: words may be joined by dashes. -/
def readMarkupName (s : List Char) : Option (List Char × List Char) :=
  match readWord s with
  | none => none
  | some (w, t) =>
    let (dashes, t) := t.span fun c => c == '-' || isWordPart c
    some (w ++ dashes, t)

/-- A character reference such as `&amp;` or `&#10;`. -/
def readReference : List Char → Option (List Char × List Char)
  | '&' :: r =>
    let (w, t) := r.span fun c => c.isAlphanum || c == '#'
    match w, t with
    | _ :: _, ';' :: t => some ('&' :: w ++ [';'], t)
    | _, _ => none
  | _ => none

/-- The parts of an attribute value behind its opening `quote`. -/
def readMarkupQuoted (quote : Char) : Nat → List Char → Option (List Tree × List Char)
  | 0, _ => none
  | fuel + 1, s =>
    match s with
    | [] => none
    | c :: r =>
      if c = quote then some ([.leaf .token (String.singleton quote)], r)
      else match readReference s with
        | some (e, t) =>
          (readMarkupQuoted quote fuel t).map fun (parts, t) =>
            (.leaf .clause (String.ofList e) :: parts, t)
        | none =>
          let (f, t) := r.span fun d => d != quote && d != '&'
          (readMarkupQuoted quote fuel t).map fun (parts, t) =>
            (.leaf .stringFragment (String.ofList (c :: f)) :: parts, t)

/-- An attribute value: its parts, with both quotes. The text has `size` characters. -/
def readMarkupString (size : Nat) : List Char → Option (List Tree × List Char)
  | q :: r =>
    if q == '\x22' || q == '\x27' then
      (readMarkupQuoted q size r).map fun (parts, t) =>
        (.leaf .token (String.singleton q) :: parts, t)
    else none
  | [] => none

/-- What an unclosed string, regular expression or template takes of a text. -/
def readUnclosed : List Char → Option (List Char × List Char)
  | c :: r =>
    if c == '\x22' || c == '\x27' || c == '/' then
      let (w, t) := r.span fun d => !isLineEnd d && d != c
      some (c :: w, t)
    else if c == '\x60' then some (c :: r, [])
    else none
  | [] => none

/-! ## 4. Automatic semicolons -/

/-- The text behind the end of a block comment. -/
def skipBlockComment : List Char → List Char
  | '*' :: '/' :: r => r
  | _ :: r => skipBlockComment r
  | [] => []

/-- The text behind blanks and comments; `none` if a slash that opens no comment follows. Every
round of `fuel` skips a comment. -/
def skipGap : Nat → List Char → Option (List Char)
  | 0, s => some s
  | fuel + 1, s =>
    match s.dropWhile isGap with
    | '/' :: '/' :: r =>
      skipGap fuel (r.dropWhile fun c => !(c == '\n' || c == '\u2028' || c == '\u2029'))
    | '/' :: '*' :: r => skipGap fuel (skipBlockComment r)
    | '/' :: _ => none
    | t => some t

/-- Whether a word operator, and not a name, starts a text behind its `i`. -/
def continuesWithWordOperator : List Char → Bool
  | 'n' :: r =>
    match r with
    | c :: _ =>
      if !c.isAlpha then true
      else match Text.after? "stanceof".toList r with
        | some (c :: _) => !c.isAlpha
        | some [] => true
        | none => false
    | [] => true
  | _ => false

/-- Whether a statement may end in front of a line that starts with `s`. -/
def startsStatement (afterExpression inSignature : Bool) : List Char → Bool
  | [] => true
  | c :: r =>
    if c == '\x60' || c == ',' || c == '.' || c == ';' || c == '*' || c == '%' || c == '>' ||
        c == '<' || c == '=' || c == '?' || c == '^' || c == '|' || c == '&' || c == '/' ||
        c == ':' then false
    else if c == '\x7b' then !inSignature
    else if c == '(' || c == '[' then !afterExpression
    else if c == '+' then r.head? == some '+'
    else if c == '-' then r.head? == some '-'
    else if c == '!' then r.head? != some '='
    else if c == 'i' then !continuesWithWordOperator r
    else true

/-- Whether a semicolon may be left out in front of `s`: at the end of the text, in front of a
closing brace, and at a line break that what follows does not continue. `afterExpression` tells
that an operator could follow, `inSignature` that a body could. The text has at most `size`
characters. -/
def autoSemicolon (afterExpression inSignature : Bool) (size : Nat) : List Char → Bool
  | [] => true
  | c :: r =>
    if c == '\x7d' then
      match r.dropWhile isGap with
      | ':' :: _ => afterExpression
      | _ => true
    else if c == '\n' then
      match skipGap size r with
      | none => false
      | some t => startsStatement afterExpression inSignature t
    else isGap c && autoSemicolon afterExpression inSignature size r

/-! ## 5. Terminals -/

inductive Terminal where
  /-- Exactly these characters. -/
  | symbol (s : String)
  /-- The longest operator at the point. -/
  | operator (s : String)
  /-- The word `s`, as a leaf of a kind. -/
  | word (s : String) (kind : Kind)
  /-- Any word but the reserved ones. -/
  | identifier (kind : Kind)
  /-- Any word. -/
  | anyWord (kind : Kind)
  /-- A word behind a number sign. -/
  | privateName
  | number
  | string
  | regex
  /-- Plain characters of a template. -/
  | templateChars
  /-- An escape sequence of a template. -/
  | templateEscape
  /-- A symbol right behind the last token. -/
  | adjacent (s : String)
  | markupText
  | markupName
  | markupReference
  | markupString
  /-- A semicolon that is left out; only comments in front of it are read. -/
  | autoSemicolon (afterExpression inSignature : Bool)
  /-- No line break stands before the next token; nothing is read. -/
  | sameLine
  /-- No token is left; nothing is read. -/
  | endOfText
  /-- The first line of a script. -/
  | scriptLine
  /-- A string or regular expression that is not closed on its line, or a template that is not
  closed at all. -/
  | unclosed
  /-- Any one character. -/
  | anyChar
  deriving DecidableEq

namespace Terminal

/-- The step over a token whose text is known. -/
def step (r : Reader) (kind : Kind) (read : Option (List Char × List Char)) :
    Option (List Tree × Reader) :=
  read.map fun (w, t) =>
    (r.comments ++ [.leaf kind (String.ofList w)], .before t (r.nextLeft - w.length))

/-- The step over a node that is read with its parts. -/
def stepNode (r : Reader) (kind : Kind) (read : Option (List Tree × List Char)) :
    Option (List Tree × Reader) :=
  read.map fun (parts, t) =>
    let size := parts.foldl (fun n part => n + part.text.length) 0
    let stop := Reader.before t (r.nextLeft - size)
    (r.comments ++ [.node kind none (r.slice stop) parts], stop)

/-- The step over characters right behind the last token. -/
def stepRest (r : Reader) (kind : Kind) (read : Option (List Char × List Char)) :
    Option (List Tree × Reader) :=
  read.map fun (w, t) => ([.leaf kind (String.ofList w)], .before t (r.left - w.length))

def exactly (s : String) (text : List Char) : Option (List Char × List Char) :=
  (Text.after? s.toList text).map fun t => (s.toList, t)

def filterText (p : String → Bool) (read : Option (List Char × List Char)) :
    Option (List Char × List Char) :=
  read.filter fun (w, _) => p (String.ofList w)

def here (r : Reader) (holds : Bool) : Option (List Tree × Reader) :=
  if holds then some ([], r) else none

/-- Takes comments until a semicolon may be left out. Every round of `fuel` takes one. -/
def leaveOut (afterExpression inSignature : Bool) :
    Nat → Reader → Option (List Tree × Reader)
  | 0, _ => none
  | fuel + 1, r =>
    if MarkupCatalog.autoSemicolon afterExpression inSignature (r.left + 1) r.rest then
      some ([], r)
    else match r.comments with
      | [] => none
      | c :: _ => do
        let size := (r.rest.takeWhile isGap).length + c.text.length
        let behind := Reader.before (r.rest.drop size) (r.left - size)
        let (cs, stop) ← leaveOut afterExpression inSignature fuel behind
        some (c :: cs, stop)

/-- Reads a terminal; `none` if something else stands at the point. -/
def read (t : Terminal) (r : Reader) : Option (List Tree × Reader) :=
  match t with
  | symbol s => step r .token (exactly s r.next)
  | operator s => step r .token (filterText (· == s) (readOperator r.next))
  | word s kind => step r kind (filterText (· == s) (readWord r.next))
  | identifier kind =>
    step r kind (filterText (fun w => !reservedWords.contains w) (readWord r.next))
  | anyWord kind => step r kind (readWord r.next)
  | privateName =>
    match r.next with
    | '#' :: s => step r .privateIdentifier ((readWord s).map fun (w, t) => ('#' :: w, t))
    | _ => none
  | number => step r .number (readNumber r.next)
  | string => stepNode r .string (readString r.nextLeft r.next)
  | regex => step r .expression (readRegex r.next)
  | templateChars =>
    match readTemplateChars r.rest with
    | ([], _) => none
    | w => stepRest r .stringFragment (some w)
  | templateEscape => stepRest r .escapeSequence (readEscape r.rest)
  | adjacent s => stepRest r .token (exactly s r.rest)
  | markupText => stepRest r .expression (readMarkupText r.rest)
  | markupName => step r .clause (readMarkupName r.next)
  | markupReference => step r .clause (readReference r.next)
  | markupString => stepNode r .string (readMarkupString r.nextLeft r.next)
  | autoSemicolon afterExpression inSignature =>
    leaveOut afterExpression inSignature (r.comments.length + 1) r
  | sameLine => here r r.sameLine
  | endOfText => here r r.next.isEmpty
  | scriptLine =>
    match r.rest with
    | '#' :: '!' :: s => stepRest r .clause (some (('#' :: '!' :: s).span fun c => c != '\n'))
    | _ => none
  | unclosed => step r .token (readUnclosed r.next)
  | anyChar =>
    match r.next with
    | c :: s => step r .token (some ([c], s))
    | [] => none

end Terminal
end MarkupCatalog

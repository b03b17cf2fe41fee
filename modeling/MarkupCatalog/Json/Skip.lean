import MarkupCatalog.Json.Scalar

/-!
# Skipping values

What follows a value that nobody asks for. Its form is checked and its meaning is not: numbers may
be too large, and escapes may name halves of pairs.
-/

namespace MarkupCatalog.Json

abbrev Skipped := Except Stop (List Char)

/-! ## 1. Scalars -/

def skipExponent (s : List Char) : Skipped :=
  let s := match s with
    | '-' :: r => r
    | '+' :: r => r
    | r => r
  match s with
  | [] => .error (here .invalidNumber [])
  | c :: r => if isDigit c then .ok (r.dropWhile isDigit) else .error (past .invalidNumber (c :: r))

/-- The exponent that may follow the digits of a number. -/
def skipNumberEnd : List Char → Skipped
  | [] => .ok []
  | c :: r => if c = 'e' ∨ c = 'E' then skipExponent r else .ok (c :: r)

def skipFraction : List Char → Skipped
  | [] => .error (past .invalidNumber [])
  | c :: r =>
    if isDigit c then skipNumberEnd (r.dropWhile isDigit) else .error (past .invalidNumber (c :: r))

/-- What follows the whole part of a number. -/
def skipWholeEnd : List Char → Skipped
  | '.' :: r => skipFraction r
  | s => skipNumberEnd s

def skipUnsigned : List Char → Skipped
  | [] => .error (here .invalidNumber [])
  | '0' :: r =>
    match r with
    | d :: _ => if isDigit d then .error (past .invalidNumber r) else skipWholeEnd r
    | [] => .ok []
  | c :: r =>
    if isDigit c then skipWholeEnd (r.dropWhile isDigit) else .error (past .invalidNumber (c :: r))

/-- What follows a string, after its opening quote. `fuel` bounds the number of characters. -/
def skipChars : Nat → List Char → Skipped
  | 0, s => .error (here .endInString s)
  | _ + 1, [] => .error ⟨.endInString, 0⟩
  | fuel + 1, c :: r =>
    if c = '"' then .ok r
    else if c = '\\' then
      match r with
      | [] => .error ⟨.endInString, 0⟩
      | e :: r' =>
        if e = 'u' then (hex4 r').bind fun (_, s) => skipChars fuel s
        else if (escape? e).isSome then skipChars fuel r'
        else .error (past .invalidEscape (e :: r'))
    else if c < ' ' then .error (here .controlCharacter (c :: r))
    else skipChars fuel r

def skipString (s : List Char) : Skipped := skipChars (s.length + 1) s

/-! ## 2. Values -/

/-- The name of a member and its colon, in front of space. -/
def skipName (s : List Char) : Skipped :=
  match skip s with
  | [] => .error ⟨.endInObject, 0⟩
  | '"' :: r =>
    (skipString r).bind fun s =>
      match skip s with
      | [] => .error ⟨.endInObject, 0⟩
      | ':' :: r => .ok r
      | s => .error (past .expectedColon s)
  | s => .error (past .keyNotString s)

mutual

/-- What follows a value. `fuel` bounds the number of values in it and of their ends. -/
def skipValue : Nat → List Char → Skipped
  | 0, s => .error (here .expectedValue s)
  | fuel + 1, s =>
    match skip s with
    | [] => .error ⟨.endInValue, 0⟩
    | 'n' :: r => word "ull".toList r
    | 't' :: r => word "rue".toList r
    | 'f' :: r => word "alse".toList r
    | '-' :: r => skipUnsigned r
    | '"' :: r => skipString r
    | '[' :: r =>
      match skip r with
      | [] => .error ⟨.endInList, 0⟩
      | ']' :: r => .ok r
      | s => (skipValue fuel s).bind (skipItems fuel)
    | '\x7b' :: r =>
      match skip r with
      | [] => .error ⟨.endInObject, 0⟩
      | '\x7d' :: r => .ok r
      | s => (skipName s).bind fun s => (skipValue fuel s).bind (skipMembers fuel)
    | c :: r => if isDigit c then skipUnsigned (c :: r) else .error (past .expectedValue (c :: r))

/-- What follows a list, behind one of its items. -/
def skipItems : Nat → List Char → Skipped
  | 0, s => .error (here .expectedValue s)
  | fuel + 1, s =>
    match skip s with
    | [] => .error ⟨.endInList, 0⟩
    | ',' :: r => (skipValue fuel r).bind (skipItems fuel)
    | ']' :: r => .ok r
    | s => .error (past .expectedListCommaOrEnd s)

/-- What follows an object, behind one of its members. -/
def skipMembers : Nat → List Char → Skipped
  | 0, s => .error (here .expectedValue s)
  | fuel + 1, s =>
    match skip s with
    | [] => .error ⟨.endInObject, 0⟩
    | ',' :: r => (skipName r).bind fun s => (skipValue fuel s).bind (skipMembers fuel)
    | '\x7d' :: r => .ok r
    | s => .error (past .expectedObjectCommaOrEnd s)

end

/-- What follows any value. -/
def skipAny (s : List Char) : Skipped := skipValue (s.length + 1) s

end MarkupCatalog.Json

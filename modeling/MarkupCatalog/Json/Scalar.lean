import MarkupCatalog.Json.Fault

/-!
# Scalars

Reading words, numbers and strings. A reader takes a text and gives a value and the rest of the
text, or a fault and its place.
-/

namespace MarkupCatalog.Json

abbrev Read (α : Type) := Except Stop (α × List Char)

/-- A fault in front of a text. -/
def here (fault : Fault) (s : List Char) : Stop := ⟨fault, size s⟩

/-- A fault at the first byte of a text. -/
def past (fault : Fault) (s : List Char) : Stop := ⟨fault, size s - 1⟩

def isSpace (c : Char) : Bool := c = ' ' || c = '\n' || c = '\t' || c = '\r'

/-- The text without its leading space. -/
def skip (s : List Char) : List Char := s.dropWhile isSpace

/-! ## 1. Words -/

/-- What follows a word. -/
def word : List Char → List Char → Except Stop (List Char)
  | [], s => .ok s
  | _ :: _, [] => .error (here .endInValue [])
  | w :: ws, c :: r => if c = w then word ws r else .error (past .expectedWord (c :: r))

/-! ## 2. Numbers -/

/-- The bound on whole numbers that are kept exactly. -/
def wholeBound : Nat := Nat.pow 2 64

/-- `10 ^ n`, for `n` up to 308. -/
def powerOfTen (n : Nat) : Float := Float.ofScientific 1 false n

/-- Divides by ten as often as the exponent says, at most 308 times in one step. -/
def scaleDown : Nat → Float → Nat → Float
  | 0, x, _ => x
  | fuel + 1, x, n =>
    if n ≤ 308 then x / powerOfTen n
    else if x == 0 then x
    else scaleDown fuel (x / powerOfTen 308) (n - 308)

/-- The value of `m * 10 ^ e` in floating-point arithmetic; `none` if it is too large. -/
def scaled? (m : Nat) (e : Int) : Option Float :=
  let x := Float.ofNat m
  if e < 0 then some (scaleDown (e.natAbs / 308 + 2) x e.natAbs)
  else if e ≤ 308 then
    let y := x * powerOfTen e.toNat
    if y.isInf then none else some y
  else if m = 0 then some x
  else none

def isDigit (c : Char) : Bool := c.isDigit

def digitValue (c : Char) : Nat := c.toNat - '0'.toNat

/-- A float with its sign, in front of the rest of the text. -/
def floatOf (negative : Bool) (m : Nat) (e : Int) (s : List Char) : Read Number :=
  match scaled? m e with
  | some x => .ok (.float (if negative then -x else x), s)
  | none => .error (here .numberOutOfRange s)

/-- The bound on exponents. -/
def exponentBound : Nat := Nat.pow 2 31

/-- The digits of an exponent behind the first one. -/
def exponentDigits (negative : Bool) (m : Nat) (e : Int) (down : Bool) (n : Nat) :
    List Char → Read Number
  | [] => floatOf negative m (if down then e - n else e + n) []
  | c :: r =>
    if isDigit c then
      let n' := 10 * n + digitValue c
      if n' < exponentBound then exponentDigits negative m e down n' r
      else if m ≠ 0 && !down then .error (here .numberOutOfRange r)
      else .ok (.float (if negative then -0.0 else 0.0), r.dropWhile isDigit)
    else floatOf negative m (if down then e - n else e + n) (c :: r)

/-- An exponent, after its letter. -/
def exponent (negative : Bool) (m : Nat) (e : Int) (s : List Char) : Read Number :=
  let (down, s) := match s with
    | '-' :: r => (true, r)
    | '+' :: r => (false, r)
    | r => (false, r)
  match s with
  | [] => .error (here .endInValue [])
  | c :: r =>
    if isDigit c then exponentDigits negative m e down (digitValue c) r
    else .error (past .invalidNumber (c :: r))

/-- The end of a number that has digits behind its point. -/
def afterFraction (negative : Bool) (m : Nat) (e : Int) : List Char → Read Number
  | [] => floatOf negative m e []
  | c :: r =>
    if c = 'e' ∨ c = 'E' then exponent negative m e r else floatOf negative m e (c :: r)

/-- The digits behind a point. Those that would make the number too large do not count. -/
def fraction (negative : Bool) (m : Nat) (e : Int) (first : Bool) : List Char → Read Number
  | [] => if first then .error (here .endInValue []) else afterFraction negative m e []
  | c :: r =>
    if isDigit c then
      let m' := 10 * m + digitValue c
      if m' < wholeBound then fraction negative m' (e - 1) false r
      else afterFraction negative m e (r.dropWhile isDigit)
    else if first then .error (past .invalidNumber (c :: r))
    else afterFraction negative m e (c :: r)

/-- The digits of a whole number that is too large to be exact: `zeros` of them do not count. -/
def longWhole (negative : Bool) (m zeros : Nat) : List Char → Read Number
  | [] => floatOf negative m zeros []
  | c :: r =>
    if isDigit c then longWhole negative m (zeros + 1) r
    else if c = '.' then fraction negative m zeros true r
    else if c = 'e' ∨ c = 'E' then exponent negative m zeros r
    else floatOf negative m zeros (c :: r)

/-- A whole number within the bounds of its sign. -/
def wholeOf (negative : Bool) (m : Nat) : Number :=
  if negative then
    if 0 < m ∧ m ≤ Nat.pow 2 63 then .whole (-m) else .float (-Float.ofNat m)
  else .whole m

/-- The digits behind the first one of a whole number. -/
def whole (negative : Bool) (m : Nat) : List Char → Read Number
  | [] => .ok (wholeOf negative m, [])
  | c :: r =>
    if isDigit c then
      let m' := 10 * m + digitValue c
      if m' < wholeBound then whole negative m' r else longWhole negative m 1 r
    else if c = '.' then fraction negative m 0 true r
    else if c = 'e' ∨ c = 'E' then exponent negative m 0 r
    else .ok (wholeOf negative m, c :: r)

/-- A number without its sign. A zero in front of other digits is refused. -/
def unsigned (negative : Bool) : List Char → Read Number
  | [] => .error (here .endInValue [])
  | c :: r =>
    if c = '0' then
      match r with
      | d :: _ => if isDigit d then .error (past .invalidNumber r) else whole negative 0 r
      | [] => whole negative 0 r
    else if isDigit c then whole negative (digitValue c) r
    else .error (past .invalidNumber (c :: r))

def number : List Char → Read Number
  | '-' :: r => unsigned true r
  | s => unsigned false s

/-- A number as a float. -/
def Number.toFloat : Number → Float
  | whole n => if n < 0 then -Float.ofNat n.natAbs else Float.ofNat n.toNat
  | float x => x

/-! ## 3. Strings -/

def hexValue? (c : Char) : Option Nat :=
  if isDigit c then some (c.toNat - '0'.toNat)
  else if 'a' ≤ c ∧ c ≤ 'f' then some (c.toNat - 'a'.toNat + 10)
  else if 'A' ≤ c ∧ c ≤ 'F' then some (c.toNat - 'A'.toNat + 10)
  else none

def hexValueOf? (s : List Char) : Option Nat :=
  s.foldlM (fun n c => (hexValue? c).map (16 * n + ·)) 0

/-- The number that four hexadecimal digits in front of a text make, and the rest. -/
def hex4 (s : List Char) : Except Stop (Nat × List Char) :=
  match if (s.take 4).length = 4 then hexValueOf? (s.take 4) else none with
  | some n => .ok (n, s.drop 4)
  | none =>
    if size s < 4 then .error ⟨.endInString, 0⟩ else .error ⟨.invalidEscape, size s - 4⟩

/-- Simple escapes. -/
def escape? (c : Char) : Option Char :=
  if c = '"' ∨ c = '\\' ∨ c = '/' then some c
  else if c = 'b' then some '\x08'
  else if c = 'f' then some '\x0c'
  else if c = 'n' then some '\n'
  else if c = 'r' then some '\r'
  else if c = 't' then some '\t'
  else none

/-- What stands between the two halves of a pair of escapes. -/
def pairMark : List Char → List Char → Except Stop (List Char)
  | [], s => .ok s
  | _ :: _, [] => .error ⟨.endInString, 0⟩
  | m :: ms, c :: r =>
    if c = m then pairMark ms r else .error (past .unexpectedEndOfEscape (c :: r))

/-- The character that an escape with hexadecimal digits names, after its letter. Characters beyond
sixteen bits are written as pairs. -/
def unicode (s : List Char) : Read Char :=
  (hex4 s).bind fun (n, s) =>
    if n < 0xd800 ∨ 0xdfff < n then .ok (Char.ofNat n, s)
    else if 0xdc00 ≤ n then .error (here .loneSurrogate s)
    else
      (pairMark ['\\', 'u'] s).bind fun s =>
        (hex4 s).bind fun (m, s) =>
          if m < 0xdc00 ∨ 0xdfff < m then .error (here .loneSurrogate s)
          else .ok (Char.ofNat (0x10000 + 1024 * (n - 0xd800) + (m - 0xdc00)), s)

/-- One character of a string, and the rest; `none` at the closing quote. -/
def stringChar (s : List Char) : Except Stop (Option Char × List Char) :=
  match s with
  | [] => .error ⟨.endInString, 0⟩
  | c :: r =>
    if c = '"' then .ok (none, r)
    else if c = '\\' then
      match r with
      | [] => .error ⟨.endInString, 0⟩
      | e :: r' =>
        if e = 'u' then (unicode r').map fun (c, s) => (some c, s)
        else match escape? e with
          | some c => .ok (some c, r')
          | none => .error (past .invalidEscape (e :: r'))
    else if c < ' ' then .error (past .controlCharacter (c :: r))
    else .ok (some c, r)

/-- The characters of a string after its opening quote. `fuel` bounds their number. -/
def stringChars : Nat → List Char → Read (List Char)
  | 0, s => .error (here .endInString s)
  | fuel + 1, s =>
    match stringChar s with
    | .error e => .error e
    | .ok (none, r) => .ok ([], r)
    | .ok (some c, r) => (stringChars fuel r).map fun (cs, r) => (c :: cs, r)

/-- A string after its opening quote. -/
def string (s : List Char) : Read String :=
  (stringChars (s.length + 1) s).map fun (cs, r) => (String.ofList cs, r)

end MarkupCatalog.Json

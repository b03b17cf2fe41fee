import MarkupCatalog.Decimal.Layout
import MarkupCatalog.Text.Shown

/-!
# Faults in JSON texts

Why a JSON text is not accepted, and where. Columns count bytes.
-/

namespace MarkupCatalog.Json

/-- Numbers are written positionally up to sixteen digits and with at most four zeros behind the
point; exponents have a sign and two digits. -/
def layout : Decimal.Layout := { leadingZeros := 4, wholeDigits := 16, exponentDigits := 2 }

inductive Number where
  | whole (n : Int)
  | float (x : Float)

/-- What a value is, where something else is expected. -/
inductive Found where
  | null
  | bool (b : Bool)
  | number (n : Number)
  | string (s : String)
  | list
  | object

inductive Fault where
  | endInList
  | endInObject
  | endInString
  | endInValue
  | expectedColon
  | expectedListCommaOrEnd
  | expectedObjectCommaOrEnd
  | expectedWord
  | expectedValue
  | invalidEscape
  | invalidNumber
  | numberOutOfRange
  | controlCharacter
  | keyNotString
  | loneSurrogate
  | trailingComma
  | trailingCharacters
  | unexpectedEndOfEscape
  | invalidType (found : Found) (expected : String)
  | invalidLength (length : Nat) (expected : String)
  | unknownField (name : String) (known : List String)
  | unknownVariant (name : String) (known : List String)
  | duplicateField (name : String)
  | missingField (name : String)

/-! ## 1. Messages -/

/-- A character as it is written in a quoted text. -/
def quotedChar (c : Char) : String :=
  if c = '"' then "\\\""
  else if c = '\\' then "\\\\"
  else if c = '\n' then "\\n"
  else if c = '\r' then "\\r"
  else if c = '\t' then "\\t"
  else if c = '\x00' then "\\0"
  else if Text.isShown c then String.singleton c
  else "\\u\x7b" ++ String.ofList (Nat.toDigits 16 c.toNat) ++ "\x7d"

def quoted (s : String) : String :=
  "\"" ++ String.join (s.toList.map quotedChar) ++ "\""

def Number.text : Number → String
  | whole n => "integer \x60" ++ (if n < 0 then "-" else "") ++
      String.ofList (Decimal.digits n.natAbs) ++ "\x60"
  | float x => "floating point \x60" ++ (layout.text? x).getD "" ++ "\x60"

def Found.text : Found → String
  | null => "null"
  | bool b => "boolean \x60" ++ (if b then "true" else "false") ++ "\x60"
  | number n => n.text
  | string s => "string " ++ quoted s
  | list => "sequence"
  | object => "map"

def ticked (s : String) : String := "\x60" ++ s ++ "\x60"

/-- The choice between names. -/
def choice : List String → String
  | [] => "there are no names"
  | [a] => "expected " ++ ticked a
  | [a, b] => "expected " ++ ticked a ++ " or " ++ ticked b
  | names => "expected one of " ++ ", ".intercalate (names.map ticked)

def Fault.message : Fault → String
  | endInList => "EOF while parsing a list"
  | endInObject => "EOF while parsing an object"
  | endInString => "EOF while parsing a string"
  | endInValue => "EOF while parsing a value"
  | expectedColon => "expected \x60:\x60"
  | expectedListCommaOrEnd => "expected \x60,\x60 or \x60]\x60"
  | expectedObjectCommaOrEnd => "expected \x60,\x60 or \x60\x7d\x60"
  | expectedWord => "expected ident"
  | expectedValue => "expected value"
  | invalidEscape => "invalid escape"
  | invalidNumber => "invalid number"
  | numberOutOfRange => "number out of range"
  | controlCharacter => "control character (\\u0000-\\u001F) found while parsing a string"
  | keyNotString => "key must be a string"
  | loneSurrogate => "lone leading surrogate in hex escape"
  | trailingComma => "trailing comma"
  | trailingCharacters => "trailing characters"
  | unexpectedEndOfEscape => "unexpected end of hex escape"
  | invalidType found expected => "invalid type: " ++ found.text ++ ", expected " ++ expected
  | invalidLength n expected =>
    "invalid length " ++ String.ofList (Decimal.digits n) ++ ", expected " ++ expected
  | unknownField name known => "unknown field " ++ ticked name ++ ", " ++ choice known
  | unknownVariant name known => "unknown variant " ++ ticked name ++ ", " ++ choice known
  | duplicateField name => "duplicate field " ++ ticked name
  | missingField name => "missing field " ++ ticked name

/-! ## 2. Places -/

/-- A fault, and how many bytes of the text follow its place. -/
structure Stop where
  fault : Fault
  left : Nat

/-- The number of bytes of a text. -/
def size : List Char → Nat
  | [] => 0
  | c :: r => c.utf8Size + size r

/-- The line and column that stand before the last `left` bytes of a text. `line` and `column` are
those of its beginning. -/
def placeOf (left : Nat) (line column : Nat) : List Char → Nat × Nat
  | [] => (line, column)
  | c :: r =>
    if size (c :: r) ≤ left then (line, column)
    else if size r < left then (line, column + (size (c :: r) - left))
    else if c = '\n' then placeOf left (line + 1) 0 r
    else placeOf left line (column + c.utf8Size) r

def Stop.message (source : List Char) (stop : Stop) : String :=
  let (line, column) := placeOf stop.left 1 0 source
  stop.fault.message ++ " at line " ++ String.ofList (Decimal.digits line) ++ " column " ++
    String.ofList (Decimal.digits column)

end MarkupCatalog.Json

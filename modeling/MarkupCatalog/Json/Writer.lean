import MarkupCatalog.Json.Fault

/-!
# Writing JSON

Values as indented text: each item of a list and each member of an object has a line of its own,
two blanks deeper than the brackets around it.
-/

namespace MarkupCatalog.Json

inductive Value where
  | null
  | float (x : Float)
  | string (s : String)
  | list (items : List Value)
  | object (members : List (String × Value))

/-! ## 1. Strings -/

/-- Two hexadecimal digits. -/
def hexDigits (n : Nat) : List Char := [Nat.digitChar (n / 16), Nat.digitChar (n % 16)]

/-- A character within quotes. -/
def escaped (c : Char) : List Char :=
  if c = '"' then ['\\', '"']
  else if c = '\\' then ['\\', '\\']
  else if c = '\x08' then ['\\', 'b']
  else if c = '\x0c' then ['\\', 'f']
  else if c = '\n' then ['\\', 'n']
  else if c = '\r' then ['\\', 'r']
  else if c = '\t' then ['\\', 't']
  else if c < ' ' then '\\' :: 'u' :: '0' :: '0' :: hexDigits c.toNat
  else [c]

/-- A string in quotes. -/
def writeString (s : String) : List Char := '"' :: (s.toList.flatMap escaped ++ ['"'])

/-! ## 2. Values -/

/-- A line break, and blanks for the depth. -/
def newline (depth : Nat) : List Char := '\n' :: List.replicate (2 * depth) ' '

mutual

/-- The text of a value whose brackets stand at a depth. -/
def Value.write (depth : Nat) : Value → List Char
  | .null => "null".toList
  | .float x => ((layout.text? x).getD "null").toList
  | .string s => writeString s
  | .list [] => ['[', ']']
  | .list (v :: vs) =>
    '[' :: newline (depth + 1) ++ v.write (depth + 1) ++ writeItems depth vs
  | .object [] => ['\x7b', '\x7d']
  | .object ((name, v) :: ms) =>
    '\x7b' :: newline (depth + 1) ++ writeString name ++ ':' :: ' ' :: v.write (depth + 1) ++
      writeMembers depth ms

/-- The items behind the first one, and the end of the list. -/
def writeItems (depth : Nat) : List Value → List Char
  | [] => newline depth ++ [']']
  | v :: vs => ',' :: newline (depth + 1) ++ v.write (depth + 1) ++ writeItems depth vs

/-- The members behind the first one, and the end of the object. -/
def writeMembers (depth : Nat) : List (String × Value) → List Char
  | [] => newline depth ++ ['\x7d']
  | (name, v) :: ms =>
    ',' :: newline (depth + 1) ++ writeString name ++ ':' :: ' ' :: v.write (depth + 1) ++
      writeMembers depth ms

end

def Value.text (v : Value) : String := String.ofList (v.write 0)

end MarkupCatalog.Json

import MarkupCatalog.Json.Skip

/-!
# Values of known types

Readers for the values that a document or a settings file holds: strings, numbers, lists, values
that may be null, names from a list, and records. A record is written as an object, or as a list of
its fields in their order.
-/

namespace MarkupCatalog.Json

/-- A reader of values: the value in front of a text, and the rest. -/
abbrev Reader (α : Type) := List Char → Read α

/-! ## 1. Scalars -/

/-- The fault of a value that is not of the expected type. -/
def unexpected (expected : String) (s : List Char) : Stop :=
  let wrong (found : Found) (rest : List Char) := here (.invalidType found expected) rest
  let orStop (r : Except Stop Stop) : Stop := match r with
    | .ok e => e
    | .error e => e
  match s with
  | [] => ⟨.endInValue, 0⟩
  | 'n' :: r => orStop ((word "ull".toList r).map (wrong .null))
  | 't' :: r => orStop ((word "rue".toList r).map (wrong (.bool true)))
  | 'f' :: r => orStop ((word "alse".toList r).map (wrong (.bool false)))
  | '"' :: r => orStop ((string r).map fun (v, rest) => wrong (.string v) rest)
  | '[' :: _ => wrong .list s
  | '\x7b' :: _ => wrong .object s
  | c :: _ =>
    if c = '-' ∨ isDigit c then orStop ((number s).map fun (n, rest) => wrong (.number n) rest)
    else past .expectedValue s

/-- A string; `expected` names it in messages. -/
def stringAs (expected : String) : Reader String := fun s =>
  match skip s with
  | '"' :: r => string r
  | s => .error (unexpected expected s)

def text : Reader String := stringAs "a string"

def float : Reader Float := fun s =>
  let s := skip s
  match s with
  | c :: _ =>
    if c = '-' ∨ isDigit c then (number s).map fun (n, r) => (n.toFloat, r)
    else .error (unexpected "f64" s)
  | [] => .error (unexpected "f64" [])

def unit : Reader Unit := fun s =>
  match skip s with
  | 'n' :: r => (word "ull".toList r).map fun r => ((), r)
  | s => .error (unexpected "unit" s)

/-- A value or null. -/
def optional (item : Reader α) : Reader (Option α) := fun s =>
  match skip s with
  | 'n' :: r => (word "ull".toList r).map fun r => (none, r)
  | s => (item s).map fun (v, r) => (some v, r)

/-! ## 2. Lists -/

/-- The text in front of the next item of a list; `none` where the list ends. -/
def nextItem (first : Bool) (s : List Char) : Except Stop (Option (List Char)) :=
  match skip s with
  | [] => .error ⟨.endInList, 0⟩
  | ']' :: _ => .ok none
  | c :: r =>
    if first then .ok (some (c :: r))
    else if c = ',' then
      match skip r with
      | [] => .error ⟨.endInValue, 0⟩
      | ']' :: r => .error (past .trailingComma (']' :: r))
      | s => .ok (some s)
    else .error (past .expectedListCommaOrEnd (c :: r))

/-- The text behind the end of a list. -/
def closeList (s : List Char) : Except Stop (List Char) :=
  match skip s with
  | [] => .error ⟨.endInList, 0⟩
  | ']' :: r => .ok r
  | ',' :: r =>
    match skip r with
    | ']' :: r => .error (past .trailingComma (']' :: r))
    | s => .error (past .trailingCharacters s)
  | s => .error (past .trailingCharacters s)

/-- Where a fault stands that is found in a list and that belongs to the whole list. -/
def afterList (s : List Char) : List Char :=
  match skip s with
  | ']' :: r => r
  | ',' :: r => skip r
  | s => s

/-- The items of a list. `fuel` bounds their number. -/
def items (item : Reader α) : Nat → Bool → Reader (List α)
  | 0, _, s => .error (here .expectedValue s)
  | fuel + 1, first, s =>
    match nextItem first s with
    | .error e => .error e
    | .ok none => (closeList s).map fun r => ([], r)
    | .ok (some s) =>
      (item s).bind fun (v, r) => (items item fuel false r).map fun (vs, r) => (v :: vs, r)

def list (item : Reader α) : Reader (List α) := fun s =>
  match skip s with
  | '[' :: r => items item (r.length + 1) true r
  | s => .error (unexpected "a sequence" s)

/-! ## 3. Members of objects -/

/-- The text behind the opening quote of the next name in an object; `none` where it ends. -/
def nextName (first : Bool) (s : List Char) : Except Stop (Option (List Char)) :=
  let name (s : List Char) : Except Stop (Option (List Char)) :=
    match s with
    | [] => .error ⟨.endInValue, 0⟩
    | '"' :: r => .ok (some r)
    | '\x7d' :: r => .error (past .trailingComma ('\x7d' :: r))
    | s => .error (past .keyNotString s)
  match skip s with
  | [] => .error ⟨.endInObject, 0⟩
  | '\x7d' :: _ => .ok none
  | c :: r =>
    if first then name (c :: r)
    else if c = ',' then name (skip r)
    else .error (past .expectedObjectCommaOrEnd (c :: r))

def colon (s : List Char) : Except Stop (List Char) :=
  match skip s with
  | [] => .error ⟨.endInObject, 0⟩
  | ':' :: r => .ok r
  | s => .error (past .expectedColon s)

/-- Where a fault stands that is found in an object and that belongs to the whole object. -/
def afterObject (s : List Char) : List Char :=
  match skip s with
  | '\x7d' :: r => r
  | s => s

/-! ## 4. Names from a list -/

/-- One of some named values. -/
def named (choices : List (String × α)) : Reader α := fun s =>
  (stringAs "variant identifier" s).bind fun (name, r) =>
    match choices.find? fun c => c.1 = name with
    | some c => .ok (c.2, r)
    | none => .error (here (.unknownVariant name (choices.map Prod.fst)) r)

/-- One of some named values: its name, or an object with the name in front of null. -/
def variant (choices : List (String × α)) : Reader α := fun s =>
  match skip s with
  | [] => .error ⟨.endInValue, 0⟩
  | '"' :: r => named choices ('"' :: r)
  | '\x7b' :: r =>
    (named choices r).bind fun (v, s) =>
      (colon s).bind fun s =>
        (unit s).bind fun (_, s) =>
          match skip s with
          | [] => .error ⟨.endInObject, 0⟩
          | '\x7d' :: r => .ok (v, r)
          | s => .error (here .expectedValue s)
  | s => .error (past .expectedValue s)

/-! ## 5. Records -/

/-- A field of a record whose fields are read one by one into a draft `δ`. -/
structure Field (δ : Type) where
  name : String
  /-- Reads the value into the draft. -/
  read : δ → Reader δ
  /-- The draft has a value for the field. -/
  isSet : δ → Bool
  /-- A list that ends before the field is accepted. -/
  canLack : Bool

/-- A kind of record. -/
structure Record (δ α : Type) where
  title : String
  fields : List (Field δ)
  /-- Names that are no fields are refused. -/
  strict : Bool
  draft : δ
  /-- The record, or the name of a field that is missing. -/
  finish : δ → Except String α

namespace Record

/-- Reads the member with a name into the draft. -/
def member (record : Record δ α) (name : String) (d : δ) (s : List Char) : Read δ :=
  match record.fields.find? fun f => f.name = name with
  | some f =>
    if f.isSet d then .error (here (.duplicateField name) (afterObject s))
    else (colon s).bind (f.read d)
  | none =>
    if record.strict then
      let known := record.fields.map Field.name
      .error (here (.unknownField name known) (afterObject s))
    else (colon s).bind fun s => (skipAny s).map fun r => (d, r)

/-- The record, in front of the rest of the text. -/
def finished (record : Record δ α) (d : δ) (rest : List Char) : Read α :=
  match record.finish d with
  | .ok v => .ok (v, rest)
  | .error name => .error (here (.missingField name) rest)

/-- Reads members to the end of an object. `fuel` bounds their number. -/
def members (record : Record δ α) : Nat → Bool → δ → List Char → Read α
  | 0, _, _, s => .error (here .expectedValue s)
  | fuel + 1, first, d, s =>
    match nextName first s with
    | .error e => .error e
    | .ok none => record.finished d (afterObject s)
    | .ok (some s) =>
      (string s).bind fun (name, s) =>
        (record.member name d s).bind fun (d, s) => record.members fuel false d s

/-- The text in a message for a list with too few fields. -/
def expected (record : Record δ α) : String :=
  "struct " ++ record.title ++ " with " ++ String.ofList (Decimal.digits record.fields.length) ++
    " elements"

/-- Reads fields in their order, to the end of a list. `count` fields came before. -/
def positional (record : Record δ α) (count : Nat) (d : δ) (s : List Char) :
    List (Field δ) → Read α
  | [] => (closeList s).bind fun r => record.finished d r
  | f :: fs =>
    match nextItem (count = 0) s with
    | .error e => .error e
    | .ok (some s) =>
      (f.read d s).bind fun (d, s) => record.positional (count + 1) d s fs
    | .ok none =>
      if f.canLack then record.positional (count + 1) d s fs
      else .error (here (.invalidLength count record.expected) (afterList s))

def read (record : Record δ α) : Reader α := fun s =>
  match skip s with
  | '\x7b' :: r => record.members (r.length + 1) true record.draft r
  | '[' :: r => record.positional 0 record.draft r record.fields
  | s => .error (unexpected ("struct " ++ record.title) s)

end Record

/-! ## 6. Whole texts -/

/-- The value that a whole text holds, or the message for its first fault. -/
def decode (reader : Reader α) (source : String) : Except String α :=
  let s := source.toList
  match reader s with
  | .error e => .error (e.message s)
  | .ok (v, r) =>
    match skip r with
    | [] => .ok v
    | r => .error ((past .trailingCharacters r).message s)

end MarkupCatalog.Json

import MarkupCatalog.Decimal.Basic
import MarkupCatalog.Tree.Quoted

/-!
# Literals

The values that the literal expressions in a decorator's arguments denote. What is no literal is
kept as its source text.
-/

namespace MarkupCatalog

inductive Literal where
  | string (value : String)
  | number (value : Float)
  | bool (value : Bool)
  | null
  | array (items : List Literal)
  /-- The properties with static keys, in their order; a key may stand more than once. -/
  | object (entries : List (String × Literal))
  /-- The source text of anything else. -/
  | expression (text : String)

namespace Literal

/-- The value of a number literal; `none` for big integers and other bases. Underscores between
digits do not count. -/
def number? (text : String) : Option Float := Decimal.parse? (text.toList.filter (· ≠ '_'))

/-! ## 1. Expressions -/

/-- The static key that a node names; computed keys name none. -/
def key? (t : Tree) : Option String :=
  match t.kind with
  | .propertyIdentifier | .number => some t.text
  | .string => t.stringValue?
  | _ => none

mutual

/-- The value of an expression. -/
def ofTree : Tree → Literal
  | .node kind label text children =>
    match kind with
    | .string | .templateString =>
      match (Tree.node kind label text children).stringValue? with
      | some s => .string s
      | none => .expression text
    | .number =>
      match number? text with
      | some x => .number x
      | none => .expression text
    | .trueLiteral => .bool true
    | .falseLiteral => .bool false
    | .nullLiteral | .undefinedLiteral => .null
    | .array => .array (items children)
    | .object => .object (entries children)
    | _ => .expression text

/-- The values of an array's items. -/
def items : List Tree → List Literal
  | [] => []
  | t :: ts => if t.isNamed && !t.isComment then ofTree t :: items ts else items ts

/-- The properties with static keys among an object's children. -/
def entries : List Tree → List (String × Literal)
  | [] => []
  | t :: ts => (property? t).toList ++ entries ts

/-- The key and value of a property with a static key. -/
def property? : Tree → Option (String × Literal)
  | .node kind label text children =>
    match kind with
    | .pair =>
      match (Tree.node kind label text children).child? .key, partValue? .value children with
      | some key, some value => (key? key).map fun k => (k, value)
      | _, _ => none
    | .shorthandProperty => some (text, .expression text)
    | .methodDefinition =>
      (((Tree.node kind label text children).child? .name).bind key?).map fun k =>
        (k, .expression text)
    | _ => none

/-- The value of the first child that plays the part `l`. -/
def partValue? (l : Label) : List Tree → Option Literal
  | [] => none
  | t :: ts => if t.label == some l then some (ofTree t) else partValue? l ts

end

/-! ## 2. Properties -/

/-- The value of the last entry with a key. -/
def lookup (entries : List (String × Literal)) (key : String) : Option Literal :=
  (entries.reverse.find? fun e => e.1 == key).map Prod.snd

def string? : Literal → Option String
  | string s => some s
  | _ => none

/-- The value of the last entry with a key, if it is a string. -/
def lookupString (entries : List (String × Literal)) (key : String) : Option String :=
  (lookup entries key).bind string?

end Literal
end MarkupCatalog

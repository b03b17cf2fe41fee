import MarkupCatalog.Decorator.Literal

/-!
# Decorators

A decorator as it is written in front of a class or a member, and the four decorators that define
markup.
-/

namespace MarkupCatalog

/-- The decorators that define elements, attributes and their members. -/
inductive Role where
  | component
  | directive
  | input
  | output
  deriving DecidableEq, Repr

namespace Role

def name : Role → String
  | component => "Component"
  | directive => "Directive"
  | input => "Input"
  | output => "Output"

def all : List Role := [component, directive, input, output]

def ofName? (s : String) : Option Role := all.find? fun r => r.name == s

/-- The roles that define an element or an attribute selector. -/
def forClasses : List Role := [component, directive]

/-- The roles that make a member an attribute. -/
def forMembers : List Role := [input, output]

end Role

/-- A decorator: its name as written, its role if the name is a plain one that has a role, and its
arguments if it is called. -/
structure Decorator where
  name : String
  role : Option Role
  arguments : Option Tree

namespace Decorator

/-- The first named child that is no comment. -/
def content? (t : Tree) : Option Tree := t.children.find? fun c => c.isNamed && !c.isComment

/-- The decorator whose name is the node `callee`. -/
def ofCallee (callee : Tree) (arguments : Option Tree) : Decorator :=
  { name := callee.text
    role := if callee.kind = .identifier then Role.ofName? callee.text else none
    arguments }

/-- Reads a decorator node. -/
def ofTree? (t : Tree) : Option Decorator :=
  match content? t with
  | none => none
  | some e =>
    if e.kind = .callExpression then
      (e.child? .function).map fun f => ofCallee f (e.child? .arguments)
    else some (ofCallee e none)

/-- The first argument, if there is one. -/
def argument? (d : Decorator) : Option Tree := d.arguments.bind content?

/-- The properties of the object that is the first argument; none where it is no object. -/
def configuration (d : Decorator) : List (String × Literal) :=
  match d.argument? with
  | some t => if t.kind = .object then Literal.entries t.children else []
  | none => []

/-- The first decorator with one of the roles. -/
def find? (ds : List Decorator) (roles : List Role) : Option Decorator :=
  ds.find? fun d => d.role.any roles.contains

def has (ds : List Decorator) (role : Role) : Bool := (find? ds [role]).isSome

end Decorator
end MarkupCatalog

import MarkupCatalog.Decorator.Basic
import MarkupCatalog.Doc.Parser
import MarkupCatalog.Tree.Cursor

/-!
# Class declarations

Classes, wherever they stand in a tree, with their decorators, members and documentation. A class
that is exported hangs together with its export: decorators and comments may stand on either.
-/

namespace MarkupCatalog

/-! ## 1. Comments and decorators -/

namespace Kind

def isClass : Kind → Bool
  | classDeclaration | abstractClassDeclaration | classExpression => true
  | _ => false

def isMember : Kind → Bool
  | fieldDefinition | methodDefinition => true
  | _ => false

end Kind

namespace Tree

/-- The comments among the first named children, up to the first that is neither a comment nor a
decorator. -/
def leadingComments (t : Tree) : List Tree :=
  (t.namedChildren.takeWhile fun c => c.kind == .comment || c.kind == .decorator).filter isComment

def decorators (t : Tree) : List Tree := t.children.filter fun c => c.kind == .decorator

end Tree

/-- The documentation in the first documentation comment among `comments`. -/
def Doc.first? (comments : List Tree) : Option Doc :=
  ((comments.map Tree.text).find? Doc.isDocComment).map Doc.parse

/-! ## 2. Members -/

/-- A field, method or accessor, with the decorators and comments that stand before it in the class
body. -/
structure Member where
  node : Tree
  decoratorNodes : List Tree
  comments : List Tree

namespace Member

/-- The members among the children of a class body. What stands before a member belongs to it,
unless something else stands between. -/
def collect (decorators comments : List Tree) : List Tree → List Member
  | [] => []
  | t :: ts =>
    if t.kind = .decorator then collect (decorators ++ [t]) comments ts
    else if t.kind = .comment then collect decorators (comments ++ [t]) ts
    else if t.kind.isMember then ⟨t, decorators, comments⟩ :: collect [] [] ts
    else if t.isNamed then collect [] [] ts
    else collect decorators comments ts

/-- The name; empty where it is computed or a number. -/
def name (m : Member) : String :=
  match m.node.child? .name with
  | none => ""
  | some t =>
    match t.kind with
    | .propertyIdentifier | .privateIdentifier => t.text
    | _ => t.stringValue?.getD ""

def decorators (m : Member) : List Decorator :=
  (m.decoratorNodes ++ m.node.decorators).filterMap Decorator.ofTree?

def doc? (m : Member) : Option Doc := Doc.first? (m.comments ++ m.node.leadingComments)

end Member

/-! ## 3. Declarations -/

/-- A class in its place. -/
structure Declaration where
  place : Cursor

namespace Declaration

def node (d : Declaration) : Tree := d.place.focus

/-- The export around the class, if it is exported. -/
def export? (d : Declaration) : Option Cursor :=
  d.place.parent?.filter fun p => p.focus.kind == .exportStatement

/-- The place that decorators and comments hang on: the export, or the class itself. -/
def anchor (d : Declaration) : Cursor := d.export?.getD d.place

def name? (d : Declaration) : Option String := (d.node.child? .name).map Tree.text

def decoratorNodes (d : Declaration) : List Tree :=
  match d.export? with
  | some p => p.focus.decorators ++ d.node.decorators
  | none => d.node.decorators

def decorators (d : Declaration) : List Decorator := d.decoratorNodes.filterMap Decorator.ofTree?

def members (d : Declaration) : List Member :=
  match d.node.child? .body with
  | none => []
  | some body => Member.collect [] [] body.children

/-- The comments right before a node and those among its first decorators. -/
def commentsAt (c : Cursor) : List Tree :=
  ((c.before.filter Tree.isNamed).takeWhile Tree.isComment).reverse ++ c.focus.leadingComments

/-- The comments that may document the class. -/
def comments (d : Declaration) : List Tree :=
  match d.export? with
  | some p => commentsAt p ++ commentsAt d.place
  | none => commentsAt d.place

def doc? (d : Declaration) : Option Doc := Doc.first? d.comments

end Declaration

/-- The classes of a tree, in source order. -/
def Tree.declarations (t : Tree) : List Declaration :=
  (t.walk.filter fun c => c.focus.kind.isClass).map Declaration.mk

end MarkupCatalog

/-!
# Concrete trees

A source unit is a tree whose nodes keep the text they span. Leaves of kind `token` are the
keywords and punctuation; all other nodes are *named*. Comments are ordinary nodes that may stand
between any two children.
-/

namespace MarkupCatalog

/-- The kinds of node that the readers of a tree tell apart. -/
inductive Kind where
  | program
  | error
  | exportStatement
  | classDeclaration
  | abstractClassDeclaration
  | classExpression
  | classBody
  | fieldDefinition
  | methodDefinition
  | decorator
  | comment
  | identifier
  | typeIdentifier
  | propertyIdentifier
  | privateIdentifier
  | shorthandProperty
  | callExpression
  | arguments
  | object
  | pair
  | array
  | string
  | stringFragment
  | escapeSequence
  | templateString
  | templateSubstitution
  | number
  | trueLiteral
  | falseLiteral
  | nullLiteral
  | undefinedLiteral
  | statement
  | expression
  | pattern
  | parameter
  | type
  | clause
  | token
  deriving DecidableEq, Repr, Inhabited

/-- The part that a child plays in its parent, where a reader asks for it. -/
inductive Label where
  | name
  | body
  | key
  | value
  | function
  | arguments
  deriving DecidableEq, Repr

/-- A node with its kind, its part in the parent, the text it spans and its children. -/
inductive Tree where
  | node (kind : Kind) (label : Option Label) (text : String) (children : List Tree)
  deriving Repr

namespace Tree

instance : Inhabited Tree := ⟨.node .token none "" []⟩

def kind : Tree → Kind
  | node k _ _ _ => k

def label : Tree → Option Label
  | node _ l _ _ => l

def text : Tree → String
  | node _ _ s _ => s

def children : Tree → List Tree
  | node _ _ _ cs => cs

/-- Keywords and punctuation are the nodes without a name. -/
def isNamed (t : Tree) : Bool := t.kind != .token

def isComment (t : Tree) : Bool := t.kind == .comment

def namedChildren (t : Tree) : List Tree := t.children.filter isNamed

/-- The first child that plays the part `l`. -/
def child? (t : Tree) (l : Label) : Option Tree :=
  t.children.find? fun c => c.label == some l

def leaf (k : Kind) (s : String) : Tree := node k none s []

/-- The same node in another part. -/
def labelled (l : Label) : Tree → Tree
  | node k _ s cs => node k (some l) s cs

@[simp] theorem kind_node (k l s cs) : (node k l s cs).kind = k := rfl
@[simp] theorem label_node (k l s cs) : (node k l s cs).label = l := rfl
@[simp] theorem text_node (k l s cs) : (node k l s cs).text = s := rfl
@[simp] theorem children_node (k l s cs) : (node k l s cs).children = cs := rfl

end Tree
end MarkupCatalog

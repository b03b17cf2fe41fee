import MarkupCatalog.Grammar.Pattern

/-!
# Rules

The names of the recursive rules of the grammar, and the words in which the rules are written.
-/

namespace MarkupCatalog

inductive Rule where
  -- types
  | type
  | unionType
  | unaryType
  | primaryType
  | returnType
  | typeArguments
  | typeParameters
  | objectType
  -- expressions
  | expression
  | expressions
  | ternary
  | binary (level : Nat)
  | unary
  | calls
  | newExpression
  | primary
  | arguments
  | object
  | array
  | templateString
  | markup
  | bindingPattern
  | assignmentPattern
  | assignmentTarget
  | parameters
  | callSignature
  -- classes
  | decorator
  | propertyName
  | method (inClass : Bool)
  | classExpression
  | classDeclaration
  | abstractClass
  | classBody
  -- statements
  | statement
  | declaration
  | block
  deriving DecidableEq, Repr

namespace Rule

abbrev Form := Pattern Rule

def the (r : Rule) : Form := .rule r

def symbol (s : String) : Form := .terminal (.symbol s)

def operator (s : String) : Form := .terminal (.operator s)

def word (s : String) : Form := .terminal (.word s .token)

def identifier : Form := .terminal (.identifier .identifier)

def typeIdentifier : Form := .terminal (.identifier .typeIdentifier)

def anyWord : Form := .terminal (.anyWord .propertyIdentifier)

def string : Form := .terminal .string

def number : Form := .terminal .number

def sameLine : Form := .terminal .sameLine

def opt (p : Form) : Form := .option p

def many (p : Form) : Form := .many p

def ahead (p : Form) : Form := .ahead p

def notAhead (p : Form) : Form := .notAhead p

def node (kind : Kind) (p : Form) : Form := .node kind p

def part (label : Label) (p : Form) : Form := .part label p

def comma : Form := symbol ","

/-- One or more with commas between them. -/
def list1 (p : Form) : Form := p ++ many (comma ++ p)

/-- Any number with commas between them; places may be left out. -/
def listWithGaps (p : Form) : Form := opt p ++ many (comma ++ opt p)

def openBrace : Form := symbol "\x7b"

def closeBrace : Form := symbol "\x7d"

def parens (p : Form) : Form := symbol "(" ++ p ++ symbol ")"

def brackets (p : Form) : Form := symbol "[" ++ p ++ symbol "]"

def braces (p : Form) : Form := openBrace ++ p ++ closeBrace

/-- The end of a statement: a semicolon, or none where it may be left out. `afterExpression` tells
that an operator could stand here instead. -/
def semicolon (afterExpression : Bool) : Form :=
  .terminal (.autoSemicolon afterExpression false) <|> symbol ";"

/-- The end of a signature: in front of a brace the semicolon may not be left out. -/
def signatureEnd : Form := .terminal (.autoSemicolon false true) <|> symbol ";"

/-- A place behind a closing brace where a semicolon may be left out. -/
def optionalEnd : Form := opt (.terminal (.autoSemicolon false false))

/-- A keyword that is a node of its own. -/
def namedWord (s : String) : Form := .terminal (.word s .clause)

/-- Wraps what stands on the left once the rest fits. -/
def growing (first : Form) (kind : Kind) (rest : Form) : Form := .grow first [(none, kind, rest)]

end Rule
end MarkupCatalog

import MarkupCatalog.Dialect
import MarkupCatalog.Grammar.Repair

/-!
# Source units

The grammar as one table, and the tree of a whole source text.
-/

namespace MarkupCatalog

namespace Rule

/-- The form of every rule. -/
def form (dialect : Dialect) : Rule → Form
  | type => typeForm
  | unionType => unionTypeForm
  | unaryType => unaryTypeForm
  | primaryType => primaryTypeForm
  | returnType => returnTypeForm
  | typeArguments => typeArgumentsForm
  | typeParameters => typeParametersForm
  | objectType => objectTypeForm
  | expression => expressionForm
  | expressions => expressionsForm
  | ternary => ternaryForm
  | binary level => binaryForm level
  | unary => unaryForm (dialect = .tsx)
  | calls => callsForm
  | newExpression => newExpressionForm
  | primary => primaryForm (dialect = .tsx)
  | arguments => argumentsForm
  | object => objectForm
  | array => arrayForm
  | templateString => templateStringForm
  | markup => markupForm
  | bindingPattern => bindingPatternForm
  | assignmentPattern => assignmentPatternForm
  | assignmentTarget => assignmentTargetForm
  | parameters => parametersForm
  | callSignature => callSignatureForm
  | decorator => decoratorForm
  | propertyName => propertyNameForm
  | method inClass => methodForm inClass
  | classExpression => classExpressionForm
  | classDeclaration => classDeclarationForm
  | abstractClass => abstractClassForm
  | classBody => classBodyForm
  | statement => statementForm
  | declaration => declarationForm
  | block => blockForm

/-- The form of every rule with its repairs. -/
def repaired (dialect : Dialect) (r : Rule) : Form := (repair? r).getD (form dialect r)

end Rule

open Rule in
/-- The tree of a source text. A text that the grammar does not fit is read once more with the
repairs. -/
def parseUnit (dialect : Dialect) (source : String) : Tree :=
  let s := source.toList
  let s := if s.head? = some '\ufeff' then s.drop 1 else s
  let start := Reader.ofText s
  let fuel := 1000 * (s.length + 1)
  let unit (item : Form) : Form :=
    opt (.terminal .scriptLine) ++ many item ++ .terminal .endOfText
  let result :=
    (unit (the .statement)).parse (form dialect) fuel start <|>
    (unit (the .statement <|> broken)).parse (repaired dialect) fuel start
  match result with
  | some (items, stop) => .node .program none source (items ++ stop.comments)
  | none => .node .program none source [.leaf .error source]

/-- What the parser gives for a source text. It may give nothing, but does so for none. -/
def parse? (dialect : Dialect) (source : String) : Option Tree := some (parseUnit dialect source)

/-- The tree of a source text, if the parser gives one. -/
def parseSource (dialect : Dialect) (source : String) : Except Failure Tree :=
  match parse? dialect source with
  | some t => .ok t
  | none => .error (.parseFailure "Failed to parse source")

@[simp] theorem parseSource_eq (dialect : Dialect) (source : String) :
    parseSource dialect source = .ok (parseUnit dialect source) := rfl

end MarkupCatalog

import MarkupCatalog.Grammar.Types

/-!
# Expressions

The rules for expressions, destructuring patterns and parameters.
-/

namespace MarkupCatalog.Rule

/-! ## 1. Patterns and parameters -/

def initializer : Form := operator "=" ++ part .value (the .expression)

def propertyNameForm : Form :=
  anyWord <|>
  .terminal .privateName <|>
  string <|>
  number <|>
  node .clause (brackets (the .expression))

/-- A name, or a pattern of braces or brackets around targets. -/
def patternForm (target : Form) : Form :=
  identifier <|>
  node .pattern (braces (listWithGaps property)) <|>
  node .pattern (brackets (listWithGaps element))
where
  element : Form :=
    node .pattern (symbol "..." ++ target) <|>
    growing target .pattern (operator "=" ++ the .expression)
  property : Form :=
    node .pattern (symbol "..." ++ target) <|>
    node .pattern (part .key (the .propertyName) ++ symbol ":" ++ part .value element) <|>
    growing (.terminal (.identifier .identifier)) .pattern (operator "=" ++ the .expression)

/-- What a declaration gives names to. -/
def bindingPatternForm : Form := patternForm (the .bindingPattern)

/-- A pattern that is assigned to. -/
def assignmentPatternForm : Form := patternForm (the .assignmentTarget)

/-- What can be assigned to: a pattern, unless it is only the start of an operand. -/
def assignmentTargetForm : Form :=
  the .assignmentPattern ++
      notAhead (symbol "." <|> symbol "[" <|> symbol "(" <|> symbol "!") <|>
    the .calls

def parameter : Form :=
  node .parameter
    (many (the .decorator) ++
      opt (qualifier "public" <|> qualifier "private" <|> qualifier "protected") ++
      opt (qualifier "override") ++ opt (word "readonly" ++ subject) ++
      (node .pattern (symbol "..." ++ the .bindingPattern) <|> word "this" <|>
        the .bindingPattern) ++
      opt (symbol "?") ++ opt typeAnnotation ++ opt initializer)
where
  subject : Form :=
    ahead (identifier <|> openBrace <|> symbol "[" <|> word "this" <|> symbol "...")
  qualifier (s : String) : Form := namedWord s ++ subject

def parametersForm : Form :=
  node .clause (parens (opt (list1 parameter ++ opt comma)))

def callSignatureForm : Form :=
  opt (the .typeParameters) ++ the .parameters ++
    opt (node .clause (symbol ":" ++ the .returnType))

/-! ## 2. Literals with parts -/

def argumentsForm : Form := node .arguments (parens (listWithGaps (spread <|> the .expression)))
where
  spread : Form := node .expression (symbol "..." ++ the .expression)

def arrayForm : Form :=
  node .array (brackets (listWithGaps (argumentsForm.spread <|> the .expression)))

def objectForm : Form := node .object (braces (listWithGaps property))
where
  property : Form :=
    argumentsForm.spread <|>
    node .pair (part .key (the .propertyName) ++ symbol ":" ++ part .value (the .expression)) <|>
    the (.method false) <|>
    .terminal (.identifier .shorthandProperty)

def templateStringForm : Form :=
  node .templateString
    (symbol "\x60" ++
      many (.terminal .templateChars <|> .terminal .templateEscape <|>
        node .templateSubstitution
          (.terminal (.adjacent "$\x7b") ++ the .expressions ++ closeBrace)) ++
      .terminal (.adjacent "\x60"))

/-! ## 3. Primary expressions -/

def functionExpression : Form :=
  node .expression
    (opt (word "async" ++ sameLine) ++ word "function" ++ opt (operator "*") ++
      opt (part .name identifier) ++ the .callSignature ++ part .body (the .block))

/-- An arrow function up to its body. The body is a block wherever it starts with a brace. -/
def arrowHead : Form :=
  opt (word "async" ++ sameLine ++ notAhead (operator "=>")) ++
    (identifier <|> the .callSignature) ++ operator "=>"

/-- An arrow function whose body is a block. It is an operand like any other. -/
def arrowBlock : Form :=
  node .expression (arrowHead ++ ahead openBrace ++ part .body (the .block))

def arrowFunction : Form :=
  node .expression (arrowHead ++ notAhead openBrace ++ part .body (the .expression))

def parenthesized : Form :=
  node .expression (parens (the .expressions ++ opt typeAnnotation))

def keywordExpression (s : String) : Form := .terminal (.word s .expression)

def primaryForm (markup : Bool) : Form :=
  arrowBlock <|>
  .terminal (.word "undefined" .undefinedLiteral) <|>
  .terminal (.word "true" .trueLiteral) <|>
  .terminal (.word "false" .falseLiteral) <|>
  .terminal (.word "null" .nullLiteral) <|>
  keywordExpression "this" <|>
  keywordExpression "super" <|>
  string <|>
  number <|>
  the .templateString <|>
  .terminal .regex <|>
  functionExpression <|>
  the .classExpression <|>
  the .object <|>
  the .array <|>
  parenthesized <|>
  node .expression (word "new" ++ operator "." ++ word "target") <|>
  node .expression (word "import" ++ operator "." ++ word "meta") <|>
  .terminal (.word "import" .expression) ++ ahead (symbol "(") <|>
  (if markup then the .markup else .notAhead .empty) <|>
  identifier

/-! ## 4. Operators -/

def memberLink : Form :=
  (operator "." <|> operator "?.") ++ (anyWord <|> .terminal .privateName)

def elementLink : Form := opt (operator "?.") ++ brackets (the .expressions)

/-- What may not stand behind type arguments that belong to no call. -/
def operandStart : Form :=
  anyWord <|> number <|> string <|> symbol "(" <|> symbol "[" <|> openBrace <|> symbol "\x60" <|>
    symbol "!" <|> symbol "~" <|> symbol "+" <|> symbol "-" <|> symbol "<" <|> symbol "/"

def callsForm : Form :=
  .grow (the .newExpression <|> the .primary)
    [(none, .expression, memberLink),
      (some .function, .callExpression,
        operator "?." ++ opt (the .typeArguments) ++ part .arguments (the .arguments)),
      (none, .expression, elementLink),
      (some .function, .callExpression, part .arguments (the .arguments)),
      (some .function, .callExpression, the .typeArguments ++ part .arguments (the .arguments)),
      (some .function, .callExpression, part .arguments (the .templateString)),
      (none, .expression, sameLine ++ operator "!"),
      (none, .expression,
        the .typeArguments ++ notAhead (sameLine ++ operandStart))]

def newExpressionForm : Form :=
  node .expression
    (word "new" ++ notAhead (operator ".") ++
      .grow (the .newExpression <|> the .primary)
        [(none, .expression, memberLink), (none, .expression, elementLink),
          (none, .expression, sameLine ++ operator "!")] ++
      opt (the .typeArguments) ++ opt (part .arguments (the .arguments)))

def unaryForm (markup : Bool) : Form :=
  node .expression
    ((operator "!" <|> operator "~" <|> operator "-" <|> operator "+" <|> word "typeof" <|>
        word "void" <|> word "delete" <|> operator "++" <|> operator "--") ++ the .unary) <|>
  node .expression (word "await" ++ the .unary) <|>
  (if markup then .notAhead .empty
    else node .expression (the .typeArguments ++ the .unary)) <|>
  .terminal .privateName ++ ahead (word "in") <|>
  growing (the .calls) .expression (sameLine ++ (operator "++" <|> operator "--"))

/-- The binary operators, loosest level first. -/
def binaryLevels : List (List String) :=
  [["??", "||"], ["&&"], ["|"], ["^"], ["&"], ["==", "!=", "===", "!=="], ["<", ">", "<=", ">="],
    ["<<", ">>", ">>>"], ["+", "-"], ["*", "/", "%"], ["**"]]

/-- The level whose operators are `in`, `instanceof`, `as` and `satisfies` too. -/
def relationLevel : Nat := 6

def anyOperator (ops : List String) : Form :=
  ops.foldr (fun o p => .alt (operator o) p) (.notAhead .empty)

def binaryForm (level : Nat) : Form :=
  match binaryLevels[level]? with
  | none => the .unary
  | some ops =>
    let tighter := the (.binary (level + 1))
    let symbols := (none, .expression, anyOperator ops ++ tighter)
    .grow tighter
      (if level = relationLevel then
        [symbols,
          (none, .expression, (word "instanceof" <|> word "in") ++ tighter),
          (none, .expression, sameLine ++ word "as" ++ (word "const" <|> the .type)),
          (none, .expression, sameLine ++ word "satisfies" ++ the .type)]
      else [symbols])

def ternaryForm : Form :=
  growing (the (.binary 0)) .expression
    (operator "?" ++ the .expression ++ symbol ":" ++ the .expression)

def assignmentOperator : Form :=
  anyOperator
    ["=", "+=", "-=", "*=", "/=", "%=", "&=", "|=", "^=", "**=", "<<=", ">>=", ">>>=", "&&=",
      "||=", "??="]

def yieldExpression : Form :=
  node .expression
    (word "yield" ++ (operator "*" ++ the .expression <|> opt (sameLine ++ the .expression)))

def expressionForm : Form :=
  arrowFunction <|>
  yieldExpression <|>
  node .expression
    (ahead (openBrace <|> symbol "[") ++ the .assignmentPattern ++ operator "=" ++
      the .expression) <|>
  growing (the .ternary) .expression (assignmentOperator ++ the .expression)

def expressionsForm : Form :=
  growing (the .expression) .expression
    (comma ++ the .expression ++ many (comma ++ the .expression))

/-! ## 5. Markup -/

def markupForm : Form :=
  node .expression
    (symbol "<" ++ symbol ">" ++ children ++ symbol "<" ++ symbol "/" ++ symbol ">") <|>
  node .expression (node .clause (start ++ symbol ">") ++ children ++ closing) <|>
  node .expression (start ++ symbol "/" ++ symbol ">")
where
  name : Form :=
    growing (.terminal .markupName) .clause ((symbol "." <|> symbol ":") ++ .terminal .markupName)
  container : Form :=
    node .expression (braces (opt (argumentsForm.spread <|> the .expressions)))
  property : Form :=
    container <|>
    node .clause
      (name ++ opt (symbol "=" ++ (.terminal .markupString <|> container <|> the .markup)))
  start : Form := symbol "<" ++ name ++ opt (the .typeArguments) ++ many property
  closing : Form := node .clause (symbol "<" ++ symbol "/" ++ name ++ symbol ">")
  children : Form :=
    many (.terminal .markupText <|> .terminal .markupReference <|> container <|> the .markup)

end MarkupCatalog.Rule

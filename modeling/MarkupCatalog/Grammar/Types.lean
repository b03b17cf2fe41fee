import MarkupCatalog.Grammar.Rule

/-!
# Types

The rules for types, type parameters and type arguments.
-/

namespace MarkupCatalog.Rule

/-- A name that may be qualified by dots. -/
def qualified (first : Form) : Form :=
  growing first .clause (symbol "." ++ .terminal (.anyWord .typeIdentifier))

def typeArgumentsForm : Form :=
  node .clause (symbol "<" ++ list1 (the .type) ++ opt comma ++ symbol ">")

def typeParameter : Form :=
  node .clause
    (opt (word "const" ++ ahead typeIdentifier) ++
      opt ((word "in" <|> word "out" ++ ahead typeIdentifier) ++
        opt (word "out" ++ ahead typeIdentifier)) ++
      part .name typeIdentifier ++
      opt (node .clause (word "extends" ++ the .type)) ++
      opt (node .clause (operator "=" ++ the .type)))

def typeParametersForm : Form :=
  node .clause (symbol "<" ++ list1 typeParameter ++ opt comma ++ symbol ">")

/-- A test of an argument's type, `x is T`, with or without `asserts`. -/
def typePredicate : Form :=
  node .type (part .name (word "this" <|> identifier) ++ sameLine ++ word "is" ++ the .type)

def returnTypeForm : Form :=
  node .clause
    (word "asserts" ++ sameLine ++ (typePredicate <|> word "this" <|> identifier)) <|>
  typePredicate <|>
  the .type

def typeAnnotation : Form := node .clause (symbol ":" ++ the .type)

def functionType : Form :=
  node .type (opt (the .typeParameters) ++ the .parameters ++ operator "=>" ++ the .returnType)

def constructorType : Form :=
  node .type
    (opt (word "abstract") ++ word "new" ++ opt (the .typeParameters) ++ the .parameters ++
      operator "=>" ++ the .type)

/-- The rest of a type that depends on another: `extends U ? X : Y`. -/
def conditionalTail : Form :=
  word "extends" ++ the .unionType ++ symbol "?" ++ the .type ++ symbol ":" ++ the .type

def typeForm : Form := growing (the .unionType) .type conditionalTail

def intersectionType : Form :=
  node .type (symbol "&" ++ the .unaryType ++ many (symbol "&" ++ the .unaryType)) <|>
  growing (the .unaryType) .type (operator "&" ++ the .unaryType)

def unionTypeForm : Form :=
  node .type (symbol "|" ++ intersectionType ++ many (operator "|" ++ intersectionType)) <|>
  growing intersectionType .type (operator "|" ++ intersectionType)

def inferType : Form :=
  node .type
    (word "infer" ++ typeIdentifier ++
      opt (word "extends" ++ the .unionType ++ notAhead (symbol "?")))

/-- What `typeof` may ask for. -/
def typeQuery : Form :=
  node .type
    (word "typeof" ++
      .grow (importType <|> word "this" <|> identifier)
        [(none, .expression, operator "." ++ (anyWord <|> .terminal .privateName)),
          (none, .expression, operator "?." ++ anyWord),
          (none, .expression, sameLine ++ brackets (string <|> number))] ++
      opt (sameLine ++ the .typeArguments))
where
  importType : Form := node .expression (word "import" ++ parens (the .type))

def unaryTypeForm : Form :=
  functionType <|>
  constructorType <|>
  node .type (word "keyof" ++ the .unaryType) <|>
  node .type (word "readonly" ++ the .unaryType) <|>
  node .type (word "unique" ++ sameLine ++ word "symbol") <|>
  inferType <|>
  .grow (the .primaryType)
    [(none, .type, sameLine ++ brackets .empty),
      (none, .type, sameLine ++ brackets (the .type))]

def tupleMember : Form :=
  node .clause (symbol "..." ++ identifier ++ opt (symbol "?") ++ typeAnnotation) <|>
  node .clause (symbol "..." ++ the .type) <|>
  node .clause (identifier ++ opt (symbol "?") ++ typeAnnotation) <|>
  growing (the .type) .clause (symbol "?")

def templateType : Form :=
  node .type
    (symbol "\x60" ++
      many (.terminal .templateChars <|> .terminal .templateEscape <|>
        node .clause (.terminal (.adjacent "$\x7b") ++ the .type ++ closeBrace)) ++
      .terminal (.adjacent "\x60"))

def literalType : Form :=
  node .type (operator "-" ++ number) <|>
  number <|>
  string <|>
  .terminal (.word "true" .trueLiteral) <|>
  .terminal (.word "false" .falseLiteral) <|>
  .terminal (.word "null" .nullLiteral) <|>
  .terminal (.word "undefined" .undefinedLiteral) <|>
  .terminal (.word "void" .type)

def primaryTypeForm : Form :=
  node .type (parens (the .type)) <|>
  the .objectType <|>
  node .type (brackets (opt (list1 tupleMember ++ opt comma))) <|>
  literalType <|>
  templateType <|>
  typeQuery <|>
  .terminal (.word "this" .type) <|>
  growing (node .type (word "import" ++ parens (the .type ++ opt (comma ++ the .expression))))
    .type (symbol "." ++ typeIdentifier) ++ opt (the .typeArguments) <|>
  growing (qualified typeIdentifier) .type (sameLine ++ the .typeArguments) <|>
  .terminal (.word "const" .type) <|>
  symbol "*" <|>
  node .type (symbol "?" ++ the .primaryType)

def indexSignature : Form :=
  node .clause
    (opt (opt (operator "-" <|> operator "+") ++ word "readonly" ++ ahead (symbol "[")) ++
      brackets
        (part .name identifier ++ typeAnnotation <|>
          node .clause
            (part .name typeIdentifier ++ word "in" ++ the .type ++
              opt (word "as" ++ the .type))) ++
      node .clause
        (opt (operator "-" <|> operator "+") ++ opt (symbol "?") ++ symbol ":" ++ the .type))

/-- A word in front of a name that it qualifies. -/
def modifier (s : String) : Form := word s ++ ahead (the .propertyName)

def namedModifier (s : String) : Form := namedWord s ++ ahead (the .propertyName)

def accessModifier : Form :=
  namedModifier "public" <|> namedModifier "private" <|> namedModifier "protected"

/-- The start of a signature that names a getter, a setter or a generator. -/
def signatureKind : Form :=
  opt (modifier "get" <|> modifier "set" <|> operator "*")

def methodSignature : Form :=
  node .clause
    (opt accessModifier ++ opt (modifier "static") ++ opt (namedModifier "override") ++
      opt (modifier "readonly") ++
      opt (word "async" ++ ahead (the .propertyName <|> operator "*")) ++ signatureKind ++
      part .name (the .propertyName) ++ opt (symbol "?") ++ the .callSignature)

def propertySignature : Form :=
  node .clause
    (opt accessModifier ++ opt (modifier "static") ++ opt (namedModifier "override") ++
      opt (modifier "readonly") ++ part .name (the .propertyName) ++ opt (symbol "?") ++
      opt typeAnnotation)

def objectTypeForm : Form :=
  node .type
    (braces
      (opt (comma <|> symbol ";") ++ opt (member ++ many (separator ++ member)) ++ opt separator))
where
  separator : Form := comma <|> semicolon false
  member : Form :=
    indexSignature <|>
    node .clause (opt (word "abstract") ++ word "new" ++ the .callSignature) <|>
    node .clause (the .callSignature) <|>
    methodSignature <|>
    propertySignature

end MarkupCatalog.Rule

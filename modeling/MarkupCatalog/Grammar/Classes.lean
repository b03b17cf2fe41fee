import MarkupCatalog.Grammar.Expressions

/-!
# Classes

The rules for decorators, classes and their members. Decorators of a field belong to the field;
decorators of a method stand in the class body before it.
-/

namespace MarkupCatalog.Rule

/-! ## 1. Decorators -/

def decoratorName : Form :=
  growing identifier .expression (symbol "." ++ anyWord)

def decoratorCall : Form :=
  node .callExpression
    (part .function decoratorName ++ opt (the .typeArguments) ++ part .arguments (the .arguments))

def decoratorForm : Form :=
  node .decorator
    (symbol "@" ++
      (decoratorCall <|> decoratorName <|>
        node .expression (parens (decoratorCall <|> decoratorName))))

/-! ## 2. Methods -/

/-- What stands behind a word that qualifies a member: in a class, where a semicolon may be left
out behind the word, it is the member's own name. -/
def modified (inClass : Bool) : Form :=
  (if inClass then notAhead (.terminal (.autoSemicolon false false)) else .empty) ++
    ahead (the .propertyName <|> operator "*")

def memberModifier (inClass : Bool) (s : String) : Form := word s ++ modified inClass

def namedMemberModifier (inClass : Bool) (s : String) : Form := namedWord s ++ modified inClass

def memberAccess (inClass : Bool) : Form :=
  namedMemberModifier inClass "public" <|> namedMemberModifier inClass "private" <|>
    namedMemberModifier inClass "protected"

def methodForm (inClass : Bool) : Form :=
  node .methodDefinition
    (opt (memberAccess inClass) ++ opt (memberModifier inClass "static") ++
      opt (namedMemberModifier inClass "override") ++ opt (memberModifier inClass "readonly") ++
      opt (memberModifier inClass "async") ++
      opt (memberModifier inClass "get" <|> memberModifier inClass "set" <|> operator "*") ++
      part .name (the .propertyName) ++ opt (symbol "?") ++ the .callSignature ++
      part .body (the .block))

/-! ## 3. Other members -/

def classMethodSignature : Form :=
  node .clause
    (opt (memberAccess true) ++ opt (memberModifier true "static") ++
      opt (namedMemberModifier true "override") ++ opt (memberModifier true "readonly") ++
      opt (memberModifier true "async") ++
      opt (memberModifier true "get" <|> memberModifier true "set" <|> operator "*") ++
      part .name (the .propertyName) ++ opt (symbol "?") ++ the .callSignature)

def abstractMethod : Form :=
  node .clause
    (opt (memberAccess true) ++ memberModifier true "abstract" ++
      opt (namedMemberModifier true "override") ++
      opt (memberModifier true "get" <|> memberModifier true "set" <|> operator "*") ++
      part .name (the .propertyName) ++ opt (symbol "?") ++ the .callSignature)

/-- A field up to its type. -/
def fieldHead : Form :=
  many (the .decorator) ++
    opt (memberModifier true "declare") ++ opt (memberAccess true) ++
    opt (memberModifier true "declare") ++
    opt (memberModifier true "static") ++ opt (namedMemberModifier true "override") ++
    opt (memberModifier true "abstract") ++
    opt (memberModifier true "readonly") ++ opt (memberModifier true "abstract") ++
    opt (memberModifier true "accessor") ++
    part .name (the .propertyName) ++ opt (symbol "?" <|> symbol "!") ++ opt typeAnnotation

def fieldMember : Form :=
  node .fieldDefinition (fieldHead ++ initializer) ++ (semicolon true <|> comma) <|>
  node .fieldDefinition (fieldHead ++ notAhead (operator "=")) ++ (semicolon false <|> comma)

def classMember : Form :=
  symbol ";" <|>
  node .clause (word "static" ++ the .block) <|>
  many (the .decorator) ++ the (.method true) ++ opt (semicolon false) <|>
  indexSignature ++ (semicolon false <|> comma) <|>
  abstractMethod ++ (semicolon false <|> comma) <|>
  classMethodSignature ++ (signatureEnd <|> semicolon false <|> comma) <|>
  fieldMember

/-! ## 4. Classes -/

/-- A name of a class: the words that start its heritage name none. -/
def className : Form := notAhead (word "extends" <|> word "implements") ++ part .name typeIdentifier

def heritage : Form :=
  node .clause
    (node .clause
        (word "extends" ++ list1 (part .value (the .calls) ++ opt (the .typeArguments))) ++
        opt implementsClause <|>
      implementsClause)
where
  implementsClause : Form := node .clause (word "implements" ++ list1 (the .type))

def classTail : Form :=
  opt (the .typeParameters) ++ opt heritage ++ part .body (the .classBody)

def classBodyForm : Form := node .classBody (braces (many classMember))

def classExpressionForm : Form :=
  node .classExpression (many (the .decorator) ++ word "class" ++ opt className ++ classTail)

def classDeclarationForm : Form :=
  node .classDeclaration
    (many (the .decorator) ++ word "class" ++ className ++ classTail ++ optionalEnd)

def abstractClassForm : Form :=
  node .abstractClassDeclaration
    (many (the .decorator) ++ word "abstract" ++ word "class" ++ className ++ classTail)

end MarkupCatalog.Rule

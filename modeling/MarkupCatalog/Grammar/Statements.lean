import MarkupCatalog.Grammar.Classes

/-!
# Statements

The rules for statements, declarations, imports and exports.
-/

namespace MarkupCatalog.Rule

/-! ## 1. Blocks and declarations -/

def blockForm : Form := node .statement (braces (many (the .statement)) ++ optionalEnd)

def functionDeclaration : Form :=
  node .statement
    (opt (word "async" ++ sameLine) ++ word "function" ++ opt (operator "*") ++
      part .name identifier ++ the .callSignature ++
      (part .body (the .block) ++ optionalEnd <|> signatureEnd))

def binding : Form :=
  node .clause
    (part .name (the .bindingPattern) ++ opt (symbol "!") ++ opt typeAnnotation ++ opt initializer)

def variableKeyword : Form := word "let" <|> word "const" <|> word "var"

def variableDeclaration : Form :=
  node .statement
    (variableKeyword ++ list1 binding ++ (semicolon true))

def dottedName : Form := growing identifier .clause (symbol "." ++ identifier)

def moduleDeclaration : Form :=
  node .statement
    (word "namespace" ++ sameLine ++ part .name dottedName ++ opt (part .body (the .block)) <|>
      word "module" ++ sameLine ++ part .name (string <|> dottedName) ++
        opt (part .body (the .block)))

def typeAlias : Form :=
  node .statement
    (word "type" ++ sameLine ++ part .name typeIdentifier ++ opt (the .typeParameters) ++
      operator "=" ++ part .value (the .type) ++ semicolon false)

def interfaceDeclaration : Form :=
  node .statement
    (word "interface" ++ sameLine ++ part .name typeIdentifier ++ opt (the .typeParameters) ++
      opt (node .clause (word "extends" ++ list1 (the .type))) ++ part .body (the .objectType))

def enumDeclaration : Form :=
  node .statement
    (opt (word "const") ++ word "enum" ++ part .name identifier ++
      part .body (node .clause (braces (opt (list1 member ++ opt comma)))))
where
  member : Form :=
    node .clause (part .name (the .propertyName) ++ initializer) <|> part .name (the .propertyName)

def importAlias : Form :=
  node .statement (word "import" ++ identifier ++ operator "=" ++ dottedName ++ semicolon false)

def ambientDeclaration : Form :=
  node .statement
    (word "declare" ++ sameLine ++
      (word "global" ++ the .block <|>
        word "module" ++ symbol "." ++ anyWord ++ symbol ":" ++ the .type ++ semicolon false <|>
        the .declaration))

def declarationForm : Form :=
  the .classDeclaration <|>
  the .abstractClass <|>
  functionDeclaration <|>
  enumDeclaration <|>
  variableDeclaration <|>
  typeAlias <|>
  interfaceDeclaration <|>
  moduleDeclaration <|>
  importAlias <|>
  ambientDeclaration

/-! ## 2. Imports and exports -/

def fromClause : Form := word "from" ++ string ++ opt importAttribute
where
  importAttribute : Form :=
    node .clause ((word "with" <|> word "assert" ++ ahead openBrace) ++ the .object)

def moduleName : Form := .terminal (.anyWord .identifier) <|> string

def specifiers : Form := node .clause (braces (opt (list1 specifier ++ opt comma)))
where
  specifier : Form :=
    node .clause
      (opt ((word "type" <|> word "typeof") ++
          ahead (notAhead (word "as" ++ moduleName ++ notAhead moduleName) ++ moduleName)) ++
        moduleName ++ opt (word "as" ++ moduleName))

def namespaceAs : Form := node .clause (symbol "*" ++ word "as" ++ moduleName)

def importStatement : Form :=
  node .statement
    (word "import" ++
      (opt ((word "type" <|> word "typeof") ++ notAhead (word "from" ++ string)) ++ clause ++
          fromClause <|>
        identifier ++ operator "=" ++ word "require" ++ parens string <|>
        string ++ opt fromClause.importAttribute) ++
      semicolon false)
where
  clause : Form :=
    namespaceAs <|> specifiers <|>
      identifier ++ opt (comma ++ (namespaceAs <|> specifiers))

def exportStatement : Form :=
  node .exportStatement
    (many (the .decorator) ++ word "export" ++
      (word "default" ++ (the .declaration <|> part .value (the .expression) ++ semicolon true) <|>
        the .declaration <|>
        opt (word "type") ++ specifiers ++ opt fromClause ++ semicolon false <|>
        opt (word "type") ++ (namespaceAs <|> symbol "*") ++ fromClause ++ semicolon false <|>
        operator "=" ++ the .expression ++ semicolon true <|>
        word "as" ++ word "namespace" ++ identifier ++ semicolon false))

/-! ## 3. Control flow -/

def condition : Form := node .expression (parens (the .expressions))

def ifStatement : Form :=
  node .statement
    (word "if" ++ condition ++ the .statement ++
      opt (node .clause (word "else" ++ the .statement)))

def forStatement : Form :=
  node .statement
    (word "for" ++ opt (word "await") ++ parens (overItems <|> counted) ++ the .statement)
where
  overItems : Form :=
    opt variableKeyword ++ the .assignmentTarget ++ opt initializer ++
      (word "in" <|> word "of") ++ the .expressions
  counted : Form :=
    (node .statement (variableKeyword ++ list1 binding ++ symbol ";") <|>
        opt (the .expressions) ++ symbol ";") ++
      opt (the .expressions) ++ symbol ";" ++ opt (the .expressions)

def switchStatement : Form :=
  node .statement
    (word "switch" ++ condition ++ node .clause (braces (many branch)))
where
  branch : Form :=
    node .clause
      ((word "case" ++ the .expressions <|> word "default") ++ symbol ":" ++ many (the .statement))

def tryStatement : Form :=
  node .statement
    (word "try" ++ the .block ++
      opt (node .clause
        (word "catch" ++ opt (parens (the .bindingPattern ++ opt typeAnnotation)) ++ the .block)) ++
      opt (node .clause (word "finally" ++ the .block)))

/-- A keyword that ends the flow, with an operand on its own line. -/
def jump (s : String) (operand : Form) : Form :=
  node .statement (word s ++ (semicolon false <|> operand ++ semicolon true))

def labelled : Form := node .statement (identifier ++ symbol ":" ++ the .statement)

def expressionStatement : Form := node .statement (the .expressions ++ semicolon true)

def statementForm : Form :=
  the .block <|>
  exportStatement <|>
  importStatement <|>
  the .declaration <|>
  ifStatement <|>
  forStatement <|>
  node .statement (word "while" ++ condition ++ the .statement) <|>
  node .statement
    (word "do" ++ the .statement ++ word "while" ++ condition ++ opt (semicolon true)) <|>
  switchStatement <|>
  tryStatement <|>
  node .statement (word "with" ++ condition ++ the .statement) <|>
  jump "return" (the .expressions) <|>
  jump "throw" (the .expressions) <|>
  jump "break" identifier <|>
  jump "continue" identifier <|>
  node .statement (word "debugger" ++ semicolon false) <|>
  node .statement (symbol ";") <|>
  labelled <|>
  expressionStatement

end MarkupCatalog.Rule

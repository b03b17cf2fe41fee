import MarkupCatalog.Grammar.Statements

/-!
# Repairs

How a text is read that the grammar does not fit. What does not belong is set apart in nodes of
kind `error`, and so is the place of what is missing; all that fits around them is read as usual.
-/

namespace MarkupCatalog.Rule

/-- One token that does not belong where it stands. -/
def stray : Form :=
  node .error
    (string <|> the .templateString <|> .terminal .unclosed <|> anyWord <|> number <|>
      .terminal .anyChar)

/-- The place of a token that is missing. -/
def missing : Form := node .error .empty

/-- Decorators without a class, or a token that does not belong. -/
def broken : Form := node .error (.some (the .decorator)) <|> stray

/-- A closing brace, which may be missing at the end of the text. -/
def closeBraceOrEnd : Form := closeBrace <|> .terminal .endOfText ++ missing

def within (item : Form) : Form :=
  openBrace ++ many (item <|> notAhead closeBrace ++ broken) ++ closeBraceOrEnd

/-- A field that something follows where it should end. -/
def brokenField : Form :=
  node .fieldDefinition (fieldHead ++ opt initializer) ++
    many (notAhead (semicolon true <|> closeBrace) ++ stray) ++ semicolon true

/-- One token too many in a declaration, where `rest` cannot start. -/
def extra (rest : Form) : Form :=
  node .error (notAhead (rest <|> closeBrace) ++ (anyWord <|> number <|> .terminal .anyChar))

/-- Decorators and one token too many, in front of what they decorate. -/
def decoratorsAndExtra (rest : Form) : Form := .some (the .decorator) ++ extra rest

/-- Decorators with one token too many behind some of them. -/
def decoratorsAroundExtra (rest : Form) : Form :=
  decoratorsAndExtra rest ++ many (the .decorator)

/-- A field with one token too many behind its decorators. -/
def fieldBehindExtra : Form :=
  node .fieldDefinition (decoratorsAndExtra openBrace ++ fieldHead ++ opt initializer) ++
    semicolon true

/-- What follows the name of a class. -/
def classTailStart : Form :=
  openBrace <|> symbol "<" <|> word "extends" <|> word "implements"

/-- A class with one token too many: behind its decorators, in front of its name or behind it. -/
def classWithExtra (keyword name : Form) : Form :=
  decoratorsAroundExtra (keyword <|> word "export") ++ keyword ++ name ++ classTail <|>
  many (the .decorator) ++ keyword ++ extra (classTailStart <|> name) ++ name ++ classTail <|>
  many (the .decorator) ++ keyword ++ name ++ extra classTailStart ++ classTail

def exportWithExtra : Form :=
  node .exportStatement
    (decoratorsAroundExtra (word "class" <|> word "abstract") ++ word "export" ++
      opt (word "default") ++ the .declaration)

def repairedProperty : Form :=
  objectForm.property <|>
  node .pair
    (part .key (the .propertyName) ++ symbol ":" ++ ahead (closeBrace <|> comma) ++
      part .value missing)

/-- The rules that are read in another way to mend a text. -/
def repair? : Rule → Option Form
  | .classBody => some (node .classBody (within (classMember <|> brokenField <|> fieldBehindExtra)))
  | .block => some (node .statement (within (the .statement) ++ optionalEnd))
  | .statement => some (statementForm <|> exportWithExtra)
  | .classDeclaration =>
    some (classDeclarationForm <|>
      node .classDeclaration (classWithExtra (word "class") className ++ optionalEnd))
  | .abstractClass =>
    some (abstractClassForm <|>
      node .abstractClassDeclaration
        (classWithExtra (word "abstract" ++ word "class") className))
  | .classExpression =>
    some (classExpressionForm <|>
      node .classExpression
        (many (the .decorator) ++ word "class" ++ extra (classTailStart <|> className) ++
          classTail))
  | .object =>
    some (node .object
      (openBrace ++ listWithGaps repairedProperty ++
        (closeBrace <|> ahead (symbol ")") ++ missing)))
  | .arguments =>
    some (node .arguments
      (symbol "(" ++ listWithGaps (argumentsForm.spread <|> the .expression) ++
        (symbol ")" <|>
          ahead (word "class" <|> word "export" <|> word "abstract" <|> symbol "@") ++ missing)))
  | _ => none

end MarkupCatalog.Rule

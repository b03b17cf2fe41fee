import MarkupCatalog.Tree.Basic
import MarkupCatalog.Text.Blank

/-!
# String literals

The value of a quoted string, or of a template without substitutions, read off its node.
-/

namespace MarkupCatalog.Tree

/-- What an escape sequence stands for: line feed, tab and carriage return have letters, and any
other escaped character stands for itself. -/
def unescape (e : List Char) : List Char :=
  if e = ['\\', 'n'] then ['\n']
  else if e = ['\\', 't'] then ['\t']
  else if e = ['\\', 'r'] then ['\r']
  else match e with
    | '\\' :: r => r
    | _ => e

/-- The part of a string's value that one of its nodes gives. -/
def stringPart (t : Tree) : List Char :=
  match t.kind with
  | .stringFragment => t.text.toList
  | .escapeSequence => unescape t.text.toList
  | _ => []

/-- A template's text between its back quotes. -/
def templateText (s : List Char) : List Char :=
  ((Text.after? ['\x60'] s).bind (Text.before? ['\x60'])).getD s

/-- The value of a string literal; `none` for a template with substitutions and for any other
node. -/
def stringValue? (t : Tree) : Option String :=
  match t.kind with
  | .string => some (String.ofList (t.children.flatMap stringPart))
  | .templateString =>
    if t.children.any fun c => c.kind == .templateSubstitution then none
    else some (String.ofList (templateText t.text.toList))
  | _ => none

end MarkupCatalog.Tree

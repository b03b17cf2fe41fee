import MarkupCatalog.Text.Blank

/-!
# Selectors

A selector is a list with commas. A part names an element (`app-card`), an attribute of one
element (`input[test]`) or an attribute of any element (`[test]`). Brackets are read as far as
they go: without a closing bracket the attribute takes the rest of its part, and what stands behind
the first closing bracket is ignored.
-/

namespace MarkupCatalog

namespace Selector

/-- What one part of a selector names. -/
inductive Fragment where
  | element (name : String)
  | elementAttribute (element attr : String)
  | globalAttribute (name : String)
  deriving DecidableEq, Repr

/-- The text in brackets, behind the opening one. -/
def bracketed (s : List Char) : List Char := s.takeWhile (· ≠ ']')

/-- Reads one part without blanks around it. -/
def Fragment.ofPart (part : List Char) : Fragment :=
  match part.span (· ≠ '[') with
  | (name, []) => .element (String.ofList name)
  | ([], _ :: r) => .globalAttribute (String.ofList (bracketed r))
  | (name, _ :: r) => .elementAttribute (String.ofList name) (String.ofList (bracketed r))

/-- The parts of a selector that are not blank, without the blanks around them. -/
def parts (s : List Char) : List (List Char) :=
  ((Text.split ',' s).map Text.trim).filter (· ≠ [])

/-- What the parts of a selector name, in their order. -/
def classify (selector : String) : List Fragment :=
  (parts selector.toList).map Fragment.ofPart

end Selector
end MarkupCatalog

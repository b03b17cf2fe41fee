/-!
# Documentation

The content of a documentation comment: a summary and block tags such as `@param` and `@see`.
-/

namespace MarkupCatalog

/-- What stands behind the name of a block tag. -/
inductive Doc.Body where
  | parameter (name text : String)
  | text (text : String)
  deriving DecidableEq, Repr

/-- A block tag; its name has no at sign. -/
structure Doc.Tag where
  name : String
  body : Doc.Body
  deriving DecidableEq, Repr

/-- A summary, absent where it would be empty, and the block tags in their order. -/
structure Doc where
  summary : Option String := none
  tags : List Doc.Tag := []
  deriving DecidableEq, Repr

namespace Doc

/-- The entry of a parameter. -/
def Tag.parameter (name text : String) : Tag := { name := "param", body := .parameter name text }

def Tag.plain (name text : String) : Tag := { name, body := .text text }

/-- A summary without tags. -/
def ofSummary (s : String) : Doc := { summary := if s.isEmpty then none else some s }

def add (d : Doc) (t : Tag) : Doc := { d with tags := d.tags ++ [t] }

/-- The summary, empty where it is absent. -/
def summaryText (d : Doc) : String := d.summary.getD ""

end Doc
end MarkupCatalog

import MarkupCatalog.Doc.Basic
import MarkupCatalog.Text.Blank

/-!
# Descriptions

The text that is shown for a tag or an attribute, made from its documentation.
-/

namespace MarkupCatalog

/-- How much of the documentation is shown. -/
inductive Detail where
  | simple
  | summary
  deriving DecidableEq, Repr

/-- The words for the two details. -/
def Detail.names : List (String × Detail) := [("simple", .simple), ("summary", .summary)]

def Detail.name : Detail → String
  | simple => "simple"
  | summary => "summary"

def Detail.ofName? (s : String) : Option Detail :=
  (Detail.names.find? fun d => d.1 = s).map Prod.snd

/-- Letter case of ASCII letters does not count. -/
def Detail.ofNameInAnyCase? (s : String) : Option Detail :=
  Detail.ofName? (String.ofList (s.toList.map Char.toLower))

/-- How the description of a tag, and of an attribute that is an input or an output, is made. -/
structure Formatter where
  describeTag : Doc → String
  describeAttribute : Doc → (isInput isOutput : Bool) → String

namespace Doc

/-- The paragraph of a block tag. -/
def Tag.paragraph (t : Tag) : String :=
  match t.body with
  | .parameter name text => "\n\n_@param_ \x60" ++ name ++ "\x60 \u2014 " ++ text
  | .text text =>
    if t.name = "see" then "\n\n_@see_ \u2014 " ++ text else "\n\n_@" ++ t.name ++ "_ " ++ text

/-- The summary and a paragraph for every block tag. -/
def paragraphs (d : Doc) : String :=
  d.tags.foldl (fun s t => s ++ t.paragraph) d.summaryText

def inputMark : String := "\n\n_@Input_"

def outputMark : String := "\n\n_@Output_"

/-- All of a tag's documentation. -/
def describeTag (d : Doc) : String := Text.trimmed d.paragraphs

/-- All of an attribute's documentation, and whether it is an input or an output. -/
def describeAttribute (d : Doc) (isInput isOutput : Bool) : String :=
  Text.trimmed
    (d.paragraphs ++ (if isInput then inputMark else "") ++ (if isOutput then outputMark else ""))

/-- The summary alone. -/
def describeSummary (d : Doc) : String := Text.trimmed d.summaryText

end Doc

namespace Detail

def tagFormat : Detail → Doc → String
  | simple => Doc.describeTag
  | summary => Doc.describeSummary

def attributeFormat : Detail → Doc → Bool → Bool → String
  | simple, d, isInput, isOutput => d.describeAttribute isInput isOutput
  | summary, d, _, _ => d.describeSummary

end Detail

/-- The formatter that shows tags and attributes in the chosen detail. -/
def Formatter.ofDetail (tags attributes : Detail) : Formatter :=
  { describeTag := tags.tagFormat, describeAttribute := attributes.attributeFormat }

end MarkupCatalog

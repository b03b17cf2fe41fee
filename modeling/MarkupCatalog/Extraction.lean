import MarkupCatalog.Catalog
import MarkupCatalog.Declaration
import MarkupCatalog.Doc.Description
import MarkupCatalog.Selector

/-!
# Extraction

What a source unit defines. Each class with a component or directive decorator whose selector is a
string gives one entry for every part of the selector; its inputs and outputs are the attributes of
the elements that it names.
-/

namespace MarkupCatalog

namespace Declaration

/-- The decorator that makes the class an element or an attribute. -/
def element? (d : Declaration) : Option Decorator := Decorator.find? d.decorators Role.forClasses

/-- The selector of the class, if it is a string that is not blank. -/
def selector? (d : Declaration) : Option String :=
  (d.element?.bind fun e => Literal.lookupString e.configuration "selector").filter fun s =>
    Text.trim s.toList ≠ []

end Declaration

/-- The attribute of a member that is an input or an output and has a name. -/
def Member.attribute? (f : Formatter) (m : Member) : Option Attribute :=
  let ds := m.decorators
  if (Decorator.find? ds Role.forMembers).isNone || m.name.isEmpty then none
  else
    let describe (doc : Doc) : String :=
      f.describeAttribute doc (Decorator.has ds .input) (Decorator.has ds .output)
    some { name := m.name, description := (m.doc?.map describe).getD "" }

/-- The attributes of members, each name once, as its first member has it. `seen` are the names
that came before. -/
def Member.attributes (f : Formatter) (seen : List String) : List Member → List Attribute
  | [] => []
  | m :: ms =>
    match m.attribute? f with
    | none => attributes f seen ms
    | some a =>
      if a.name ∈ seen then attributes f seen ms else a :: attributes f (a.name :: seen) ms

/-- The entry that a part of a selector gives. -/
def Selector.Fragment.entry (description : String) (attributes : List Attribute) :
    Selector.Fragment → Catalog
  | .element name => { tags := [{ name, description, attributes }] }
  | .elementAttribute tag attr =>
    { tags := [{ name := tag, description := "", attributes := [⟨attr, description⟩] }] }
  | .globalAttribute name => { globalAttributes := [⟨name, description⟩] }

/-- What a class defines. -/
def Declaration.extract (f : Formatter) (d : Declaration) : Catalog :=
  match d.selector? with
  | none => .empty
  | some selector =>
    let description := (d.doc?.map f.describeTag).getD ""
    let attributes := Member.attributes f [] d.members
    .concat ((Selector.classify selector).map fun part => part.entry description attributes)

/-- What all classes of a tree define. -/
def Tree.extract (f : Formatter) (t : Tree) : Catalog :=
  .concat (t.declarations.map fun d => d.extract f)

end MarkupCatalog

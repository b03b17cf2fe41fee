import MarkupCatalog.Document.Basic
import MarkupCatalog.Failure
import MarkupCatalog.Json.Record
import MarkupCatalog.Json.Writer

/-!
# Document texts

Documents as JSON texts: how they are written, and how they are read.
-/

namespace MarkupCatalog

/-! ## 1. Writing -/

def Attribute.toJson (a : Attribute) : Json.Value :=
  .object [("name", .string a.name), ("description", .string a.description)]

def Tag.toJson (t : Tag) : Json.Value :=
  .object [("name", .string t.name), ("description", .string t.description),
    ("attributes", .list (t.attributes.map Attribute.toJson))]

def Document.toJson (d : Document) : Json.Value :=
  .object [("version", .float d.version), ("tags", .list (d.tags.map Tag.toJson)),
    ("globalAttributes", .list (d.globalAttributes.map Attribute.toJson))]

def Document.text (d : Document) : String := d.toJson.text

/-- What the writer makes of a document. It may refuse a value, but refuses none of a document. -/
def Document.write (d : Document) : Except String String := .ok d.text

/-- The text of a document, if the writer gives one. -/
def Document.serialize (d : Document) : Except Failure String := d.write.mapError .serialization

@[simp] theorem Document.serialize_eq (d : Document) : d.serialize = .ok d.text := rfl

/-! ## 2. Reading -/

/-- The value of a field that must be there. -/
def required (name : String) : Option α → Except String α
  | some v => .ok v
  | none => .error name

structure Attribute.Draft where
  name : Option String := none
  description : Option String := none

def Attribute.record : Json.Record Attribute.Draft Attribute where
  title := "Attribute"
  fields := [
    { name := "name"
      read := fun d s => (Json.text s).map fun (v, r) => ({ d with name := some v }, r)
      isSet := fun d => d.name.isSome
      canLack := false },
    { name := "description"
      read := fun d s => (Json.text s).map fun (v, r) => ({ d with description := some v }, r)
      isSet := fun d => d.description.isSome
      canLack := false }]
  strict := false
  draft := {}
  finish := fun d => do
    let name ← required "name" d.name
    let description ← required "description" d.description
    return { name, description }

structure Tag.Draft where
  name : Option String := none
  description : Option String := none
  attributes : Option (List Attribute) := none

/-- Tags without a list of attributes have none. -/
def Tag.record : Json.Record Tag.Draft Tag where
  title := "Tag"
  fields := [
    { name := "name"
      read := fun d s => (Json.text s).map fun (v, r) => ({ d with name := some v }, r)
      isSet := fun d => d.name.isSome
      canLack := false },
    { name := "description"
      read := fun d s => (Json.text s).map fun (v, r) => ({ d with description := some v }, r)
      isSet := fun d => d.description.isSome
      canLack := false },
    { name := "attributes"
      read := fun d s => (Json.list Attribute.record.read s).map fun (v, r) =>
        ({ d with attributes := some v }, r)
      isSet := fun d => d.attributes.isSome
      canLack := true }]
  strict := false
  draft := {}
  finish := fun d => do
    let name ← required "name" d.name
    let description ← required "description" d.description
    return { name, description, attributes := d.attributes.getD [] }

structure Document.Draft where
  version : Option Float := none
  tags : Option (List Tag) := none
  globalAttributes : Option (List Attribute) := none

def Document.record : Json.Record Document.Draft Document where
  title := "HtmlData"
  fields := [
    { name := "version"
      read := fun d s => (Json.float s).map fun (v, r) => ({ d with version := some v }, r)
      isSet := fun d => d.version.isSome
      canLack := false },
    { name := "tags"
      read := fun d s => (Json.list Tag.record.read s).map fun (v, r) =>
        ({ d with tags := some v }, r)
      isSet := fun d => d.tags.isSome
      canLack := false },
    { name := "globalAttributes"
      read := fun d s => (Json.list Attribute.record.read s).map fun (v, r) =>
        ({ d with globalAttributes := some v }, r)
      isSet := fun d => d.globalAttributes.isSome
      canLack := false }]
  strict := false
  draft := {}
  finish := fun d => do
    let version ← required "version" d.version
    let tags ← required "tags" d.tags
    let globalAttributes ← required "globalAttributes" d.globalAttributes
    return { version, tags, globalAttributes }

def Document.ofText (source : String) : Except String Document :=
  Json.decode Document.record.read source

def Tag.ofText (source : String) : Except String Tag := Json.decode Tag.record.read source

end MarkupCatalog

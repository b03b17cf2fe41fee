import MarkupCatalog.Json.Record
import MarkupCatalog.Settings.Basic

/-!
# Settings files

A layer of settings as a JSON text. Other names than those of the settings are refused, and null
stands for a setting that is not set.
-/

namespace MarkupCatalog

def Detail.reader : Json.Reader Detail := Json.variant Detail.names

namespace Settings.Layer

/-- For each setting: whether it has been read, and its value if it is not null. -/
structure Draft where
  destination : Option (Option String) := none
  files : Option (Option String) := none
  exclude : Option (Option (List String)) := none
  tagDetail : Option (Option Detail) := none
  attributeDetail : Option (Option Detail) := none

def record : Json.Record Draft Layer where
  title := "ConfigLayer"
  fields := [
    { name := "destination"
      read := fun d s => (Json.optional Json.text s).map fun (v, r) =>
        ({ d with destination := some v }, r)
      isSet := fun d => d.destination.isSome
      canLack := false },
    { name := "files"
      read := fun d s => (Json.optional Json.text s).map fun (v, r) =>
        ({ d with files := some v }, r)
      isSet := fun d => d.files.isSome
      canLack := false },
    { name := "exclude"
      read := fun d s => (Json.optional (Json.list Json.text) s).map fun (v, r) =>
        ({ d with exclude := some v }, r)
      isSet := fun d => d.exclude.isSome
      canLack := false },
    { name := "tagFormatter"
      read := fun d s => (Json.optional Detail.reader s).map fun (v, r) =>
        ({ d with tagDetail := some v }, r)
      isSet := fun d => d.tagDetail.isSome
      canLack := false },
    { name := "attributeFormatter"
      read := fun d s => (Json.optional Detail.reader s).map fun (v, r) =>
        ({ d with attributeDetail := some v }, r)
      isSet := fun d => d.attributeDetail.isSome
      canLack := false }]
  strict := true
  draft := {}
  finish := fun d => .ok
    { destination := d.destination.getD none
      files := d.files.getD none
      exclude := d.exclude.getD none
      tagDetail := d.tagDetail.getD none
      attributeDetail := d.attributeDetail.getD none }

def ofText (source : String) : Except String Layer := Json.decode record.read source

end Settings.Layer
end MarkupCatalog

import MarkupCatalog.Doc.Description

/-!
# Settings

What a run reads, writes and shows. Settings start from defaults, and each layer (the settings
file, then the command line) overrides what it sets. An empty text sets nothing.
-/

namespace MarkupCatalog

structure Settings where
  destination : String := "custom.html-data.json"
  files : String := "**/*.ts"
  exclude : List String := ["**/*.spec.ts"]
  tagDetail : Detail := .simple
  attributeDetail : Detail := .simple
  deriving DecidableEq, Repr

/-- Some of the settings. -/
structure Settings.Layer where
  destination : Option String := none
  files : Option String := none
  exclude : Option (List String) := none
  tagDetail : Option Detail := none
  attributeDetail : Option Detail := none
  deriving DecidableEq, Repr

namespace Settings

/-- The settings with those that the layer sets. -/
def apply (s : Settings) (l : Layer) : Settings :=
  { destination := (l.destination.filter (· ≠ "")).getD s.destination
    files := (l.files.filter (· ≠ "")).getD s.files
    exclude := (l.exclude.map fun globs => globs.filter (· ≠ "")).getD s.exclude
    tagDetail := l.tagDetail.getD s.tagDetail
    attributeDetail := l.attributeDetail.getD s.attributeDetail }

def formatter (s : Settings) : Formatter := .ofDetail s.tagDetail s.attributeDetail

end Settings
end MarkupCatalog

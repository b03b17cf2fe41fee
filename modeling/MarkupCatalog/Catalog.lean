/-!
# Catalogs

The markup that source units define: tags with their attributes, and attributes of any element.
-/

namespace MarkupCatalog

structure Attribute where
  name : String
  description : String
  deriving DecidableEq, Repr

structure Tag where
  name : String
  description : String
  attributes : List Attribute
  deriving DecidableEq, Repr

/-- What a source unit defines, in source order. Entries of one name stay apart. -/
structure Catalog where
  tags : List Tag := []
  globalAttributes : List Attribute := []
  deriving DecidableEq, Repr

namespace Catalog

def empty : Catalog := {}

/-- What both define, in order. -/
def append (c d : Catalog) : Catalog :=
  { tags := c.tags ++ d.tags, globalAttributes := c.globalAttributes ++ d.globalAttributes }

instance : Append Catalog := ⟨append⟩

def isEmpty (c : Catalog) : Bool := c.tags.isEmpty && c.globalAttributes.isEmpty

def concat (cs : List Catalog) : Catalog := cs.foldl append empty

end Catalog
end MarkupCatalog

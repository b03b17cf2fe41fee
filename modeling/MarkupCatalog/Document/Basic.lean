import MarkupCatalog.Catalog

/-!
# Documents

The document that editors load: a catalog of tags and global attributes, with the version of the
format.
-/

namespace MarkupCatalog

structure Document where
  version : Float
  tags : List Tag
  globalAttributes : List Attribute

namespace Document

/-- The version of the format that is written. -/
def currentVersion : Float := 1.1

def empty : Document := { version := currentVersion, tags := [], globalAttributes := [] }

/-- The document with the entries of a catalog behind its own. -/
def add (d : Document) (c : Catalog) : Document :=
  { d with tags := d.tags ++ c.tags, globalAttributes := d.globalAttributes ++ c.globalAttributes }

def ofCatalog (c : Catalog) : Document := empty.add c

end Document
end MarkupCatalog

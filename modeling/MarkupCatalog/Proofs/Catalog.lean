import MarkupCatalog.Catalog

/-!
# Catalogs in order

Catalogs with `++` and the empty catalog form a monoid, and `Catalog.concat` puts a list of catalogs
together in order.
-/

namespace MarkupCatalog.Catalog

theorem ext_lists {c d : Catalog} (ht : c.tags = d.tags)
    (hg : c.globalAttributes = d.globalAttributes) : c = d := by
  cases c
  cases d
  subst ht hg
  rfl

@[simp] theorem empty_append (c : Catalog) : empty ++ c = c := rfl

@[simp] theorem append_empty (c : Catalog) : c ++ empty = c :=
  ext_lists (List.append_nil _) (List.append_nil _)

theorem append_assoc (c d e : Catalog) : c ++ d ++ e = c ++ (d ++ e) :=
  ext_lists (List.append_assoc _ _ _) (List.append_assoc _ _ _)

theorem foldl_append (c : Catalog) (cs : List Catalog) :
    cs.foldl append c = c ++ concat cs := by
  induction cs generalizing c with
  | nil => exact (append_empty c).symm
  | cons d ds ih =>
    show ds.foldl append (c ++ d) = c ++ ds.foldl append (empty ++ d)
    rw [ih, ih, empty_append, append_assoc]

@[simp] theorem concat_cons (c : Catalog) (cs : List Catalog) :
    concat (c :: cs) = c ++ concat cs :=
  foldl_append c cs

@[simp] theorem concat_append (cs ds : List Catalog) :
    concat (cs ++ ds) = concat cs ++ concat ds := by
  rw [concat, List.foldl_append, foldl_append]
  rfl

/-- The tags and the attributes among entries, apart. -/
def ofEntries (es : List (Tag ⊕ Attribute)) : Catalog :=
  { tags := es.filterMap Sum.getLeft?, globalAttributes := es.filterMap Sum.getRight? }

@[simp] theorem ofEntries_append (es es' : List (Tag ⊕ Attribute)) :
    ofEntries (es ++ es') = ofEntries es ++ ofEntries es' :=
  ext_lists List.filterMap_append List.filterMap_append

end MarkupCatalog.Catalog

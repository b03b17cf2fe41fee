import Mathlib.Data.UInt
import MarkupCatalog.Proofs.Catalog
import MarkupCatalog.Report

/-!
# Reports on lists of files

A report accounts for every file once: it holds what the readable files define, in the order of the
files, and counts the others.  The reports on two lists make up the report on both together.
-/

namespace MarkupCatalog

namespace Document

theorem add_empty (d : Document) : d.add .empty = d := by
  unfold add
  have htags : d.tags ++ Catalog.empty.tags = d.tags := List.append_nil _
  have hglobal : d.globalAttributes ++ Catalog.empty.globalAttributes = d.globalAttributes :=
    List.append_nil _
  rw [htags, hglobal]

theorem add_append (d : Document) (c c' : Catalog) : d.add (c ++ c') = (d.add c).add c' := by
  have htags : d.tags ++ (c ++ c').tags = d.tags ++ c.tags ++ c'.tags :=
    (List.append_assoc _ _ _).symm
  have hglobal : d.globalAttributes ++ (c ++ c').globalAttributes =
      d.globalAttributes ++ c.globalAttributes ++ c'.globalAttributes :=
    (List.append_assoc _ _ _).symm
  unfold add
  rw [htags, hglobal]

/-- The entries of a document. -/
def catalog (d : Document) : Catalog := { tags := d.tags, globalAttributes := d.globalAttributes }

end Document

namespace Report

/-! ## 1. Reports together -/

/-- The reports on two lists of files, together. -/
def append (r s : Report) : Report where
  document := r.document.add s.document.catalog
  processed := r.processed + s.processed
  failed := r.failed + s.failed
  bytes := r.bytes + s.bytes

instance : Append Report := ⟨append⟩

theorem append_empty (r : Report) : r ++ empty = r := by
  obtain ⟨d, n, m, b⟩ := r
  show Report.mk (d.add .empty) (n + 0) (m + 0) (b + 0) = _
  rw [Document.add_empty, Nat.add_zero, Nat.add_zero, UInt64.add_zero]

theorem append_assoc (r s t : Report) : r ++ s ++ t = r ++ (s ++ t) := by
  show Report.mk _ _ _ _ = Report.mk _ _ _ _
  congr 1
  · exact (Document.add_append _ _ _).symm
  · exact Nat.add_assoc _ _ _
  · exact Nat.add_assoc _ _ _
  · exact UInt64.add_assoc _ _ _

variable (fs : FileSystem) (f : Formatter)

theorem push_eq_append (r : Report) (p : Path) : push fs f r p = r ++ push fs f empty p := by
  show push fs f r p = append r (push fs f empty p)
  unfold push append
  cases Catalog.ofFile fs f p with
  | ok c =>
    simp only [empty, UInt64.zero_add, Nat.zero_add]
    rfl
  | error e =>
    have hdocument : r.document.add Document.empty.catalog = r.document := Document.add_empty _
    simp only [empty, UInt64.zero_add, Nat.zero_add, Nat.add_zero, hdocument]

theorem foldl_push (r : Report) (files : List Path) :
    files.foldl (push fs f) r = r ++ ofFiles fs f files := by
  induction files generalizing r with
  | nil => exact (append_empty r).symm
  | cons p files ih =>
    calc files.foldl (push fs f) (push fs f r p)
      _ = push fs f r p ++ ofFiles fs f files := ih _
      _ = r ++ (push fs f empty p ++ ofFiles fs f files) := by
        rw [push_eq_append, append_assoc]
      _ = r ++ ofFiles fs f (p :: files) := by rw [← ih]; rfl

theorem ofFiles_append (files files' : List Path) :
    ofFiles fs f (files ++ files') = ofFiles fs f files ++ ofFiles fs f files' := by
  rw [ofFiles, List.foldl_append, foldl_push]
  rfl

theorem ofFiles_cons (p : Path) (files : List Path) :
    ofFiles fs f (p :: files) = ofFiles fs f [p] ++ ofFiles fs f files :=
  ofFiles_append fs f [p] files

theorem bytes_ofFile (p : Path) : (ofFiles fs f [p]).bytes = sizeOf fs p := by
  show (push fs f empty p).bytes = _
  unfold push
  cases Catalog.ofFile fs f p <;> exact UInt64.zero_add _

theorem bytes_ofFiles (files : List Path) :
    (ofFiles fs f files).bytes = (files.map (sizeOf fs)).sum := by
  induction files with
  | nil => rfl
  | cons p files ih =>
    rw [ofFiles_cons, List.map_cons, List.sum_cons, ← ih, ← bytes_ofFile fs f p]
    rfl

/-! ## 2. What a report says -/

/-- A report on files: it has the default document with what the readable files define, in their
order, the numbers of files that are read and that are not, and the size of all texts, those
included that are in no dialect. -/
structure Accounts (files : List Path) (r : Report) : Prop where
  document : r.document = .ofCatalog
    (.concat (files.filterMap fun p => (Catalog.ofFile fs f p).toOption))
  processed : r.processed = files.countP fun p => (Catalog.ofFile fs f p).isOk
  failed : r.failed = files.countP fun p => !(Catalog.ofFile fs f p).isOk
  total : r.processed + r.failed = files.length
  bytes : r.bytes.toNat =
    ((files.filterMap fun p => (fs.readText p).toOption).map String.utf8ByteSize).sum % 2 ^ 64

namespace Accounts

variable {fs f} {files files' : List Path} {r s : Report}

theorem append (h : Accounts fs f files r) (h' : Accounts fs f files' s) :
    Accounts fs f (files ++ files') (r ++ s) where
  document := by
    show r.document.add s.document.catalog = _
    rw [h.document, h'.document, List.filterMap_append, Catalog.concat_append]
    exact (Document.add_append _ _ _).symm
  processed := by
    show r.processed + s.processed = _
    rw [h.processed, h'.processed, List.countP_append]
  failed := by
    show r.failed + s.failed = _
    rw [h.failed, h'.failed, List.countP_append]
  total := by
    show r.processed + s.processed + (r.failed + s.failed) = _
    rw [List.length_append, ← h.total, ← h'.total]
    omega
  bytes := by
    show (r.bytes + s.bytes).toNat = _
    rw [UInt64.toNat_add, h.bytes, h'.bytes, List.filterMap_append, List.map_append,
      List.sum_append, ← Nat.add_mod]

end Accounts

theorem toNat_sizeOf (p : Path) : (sizeOf fs p).toNat =
    (([p].filterMap fun p => (fs.readText p).toOption).map String.utf8ByteSize).sum % 2 ^ 64 := by
  unfold sizeOf
  rw [List.filterMap_cons]
  cases fs.readText p with
  | ok text => exact UInt64.toNat_ofNat'
  | error e => rfl

theorem accounts_ofFile (p : Path) : Accounts fs f [p] (ofFiles fs f [p]) := by
  have hrest : ofFiles fs f [p] = push fs f empty p := rfl
  constructor
  case bytes => rw [bytes_ofFile, toNat_sizeOf]
  all_goals
    rw [hrest]
    unfold push
    simp only [List.filterMap_cons, List.countP_cons]
    cases Catalog.ofFile fs f p <;> rfl

theorem accounts_ofFiles (files : List Path) : Accounts fs f files (ofFiles fs f files) := by
  induction files with
  | nil => exact ⟨rfl, rfl, rfl, rfl, rfl⟩
  | cons p files ih =>
    rw [ofFiles_cons]
    exact (accounts_ofFile fs f p).append ih

end Report
end MarkupCatalog

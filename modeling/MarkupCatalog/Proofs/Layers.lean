import Mathlib.Data.List.Induction
import MarkupCatalog.Settings.Basic

/-!
# Layers of settings

Settings that start from the defaults and take one layer after another have, in each field, what the
last layer sets that sets it at all.  A text is set if it is not empty, a list of globs if it is
there, and the empty globs in it do not count.
-/

namespace MarkupCatalog.Settings

/-! ## 1. Fields -/

/-- A field of settings, and what it means that a layer sets it. -/
structure Field (α : Type) where
  get : Settings → α
  Sets : Layer → α → Prop
  get_apply_of_sets : ∀ {s : Settings} {l : Layer} {v : α}, Sets l v → get (s.apply l) = v
  get_apply_of_unset : ∀ {s : Settings} {l : Layer}, (∀ v, ¬ Sets l v) → get (s.apply l) = get s

namespace Field

theorem filter_nonempty {value : Option String} {v : String} (hvalue : value = some v)
    (hne : v ≠ "") : value.filter (· ≠ "") = some v := by
  rw [hvalue, Option.filter_some, if_pos (decide_eq_true hne)]

theorem filter_unset {value : Option String} (h : ∀ v, ¬ (value = some v ∧ v ≠ "")) :
    value.filter (· ≠ "") = none := by
  rw [Option.filter_eq_none_iff]
  intro v hvalue hne
  exact h v ⟨hvalue, of_decide_eq_true hne⟩

theorem eq_none_of_unset {α : Type} {value : Option α} (h : ∀ v, ¬ value = some v) :
    value = none :=
  Option.eq_none_iff_forall_ne_some.mpr h

def destination : Field String where
  get := Settings.destination
  Sets l v := l.destination = some v ∧ v ≠ ""
  get_apply_of_sets h := by
    unfold apply
    rw [filter_nonempty h.1 h.2, Option.getD_some]
  get_apply_of_unset h := by
    unfold apply
    rw [filter_unset h, Option.getD_none]

def files : Field String where
  get := Settings.files
  Sets l v := l.files = some v ∧ v ≠ ""
  get_apply_of_sets h := by
    unfold apply
    rw [filter_nonempty h.1 h.2, Option.getD_some]
  get_apply_of_unset h := by
    unfold apply
    rw [filter_unset h, Option.getD_none]

/-- A list is set also if it is empty. -/
def exclude : Field (List String) where
  get := Settings.exclude
  Sets l v := ∃ globs, l.exclude = some globs ∧ v = globs.filter (· ≠ "")
  get_apply_of_sets h := by
    obtain ⟨globs, hglobs, rfl⟩ := h
    unfold apply
    rw [hglobs, Option.map_some, Option.getD_some]
  get_apply_of_unset h := by
    unfold apply
    rw [eq_none_of_unset fun globs hglobs => h _ ⟨globs, hglobs, rfl⟩, Option.map_none,
      Option.getD_none]

def tagDetail : Field Detail where
  get := Settings.tagDetail
  Sets l v := l.tagDetail = some v
  get_apply_of_sets h := by
    unfold apply
    rw [h, Option.getD_some]
  get_apply_of_unset h := by
    unfold apply
    rw [eq_none_of_unset h, Option.getD_none]

def attributeDetail : Field Detail where
  get := Settings.attributeDetail
  Sets l v := l.attributeDetail = some v
  get_apply_of_sets h := by
    unfold apply
    rw [h, Option.getD_some]
  get_apply_of_unset h := by
    unfold apply
    rw [eq_none_of_unset h, Option.getD_none]

/-! ## 2. The last layer that sets a field -/

/-- The value of a field behind layers: that of the last layer that sets it, or the default. -/
inductive Last {α : Type} (f : Field α) : List Layer → α → Prop
  | default {layers : List Layer} (h : ∀ l ∈ layers, ∀ v, ¬ f.Sets l v) : Last f layers (f.get {})
  | set {before after : List Layer} {l : Layer} {v : α} (h : f.Sets l v)
      (hafter : ∀ l' ∈ after, ∀ w, ¬ f.Sets l' w) : Last f (before ++ l :: after) v

section Last

variable {α : Type} {f : Field α} {layers : List Layer} {l : Layer} {v : α}

theorem Last.snoc_set (layers : List Layer) (h : f.Sets l v) : f.Last (layers ++ [l]) v :=
  .set h fun _ hnone => absurd hnone List.not_mem_nil

theorem unset_snoc (h : ∀ l' ∈ layers, ∀ w, ¬ f.Sets l' w) (hl : ∀ w, ¬ f.Sets l w) :
    ∀ l' ∈ layers ++ [l], ∀ w, ¬ f.Sets l' w := by
  intro l' hl'
  rcases List.mem_append.mp hl' with hl' | hl'
  · exact h l' hl'
  · rwa [List.mem_singleton.mp hl']

theorem Last.snoc_unset (h : f.Last layers v) (hl : ∀ w, ¬ f.Sets l w) :
    f.Last (layers ++ [l]) v := by
  cases h with
  | default h => exact .default (unset_snoc h hl)
  | @set before after l₀ _ hset hafter =>
    rw [List.append_assoc, List.cons_append]
    exact .set hset (unset_snoc hafter hl)

end Last

theorem last_foldl_apply {α : Type} (f : Field α) (layers : List Layer) :
    f.Last layers (f.get (layers.foldl apply {})) := by
  -- the layer that comes last decides, or leaves the field to those before it
  induction layers using List.reverseRecOn with
  | nil => exact .default fun _ hnone => absurd hnone List.not_mem_nil
  | append_singleton layers l ih =>
    rw [List.foldl_append, List.foldl_cons, List.foldl_nil]
    by_cases hset : ∃ v, f.Sets l v
    · obtain ⟨v, hset⟩ := hset
      rw [f.get_apply_of_sets hset]
      exact .snoc_set layers hset
    · rw [not_exists] at hset
      rw [f.get_apply_of_unset hset]
      exact ih.snoc_unset hset

/-- A layer that has been applied changes nothing when it is applied again. -/
theorem get_apply_apply {α : Type} (f : Field α) (s : Settings) (l : Layer) :
    f.get ((s.apply l).apply l) = f.get (s.apply l) := by
  by_cases hset : ∃ v, f.Sets l v
  · obtain ⟨v, hset⟩ := hset
    rw [f.get_apply_of_sets hset, f.get_apply_of_sets hset]
  · rw [not_exists] at hset
    exact f.get_apply_of_unset hset

end Field

theorem ext_fields {s s' : Settings} (hdestination : s.destination = s'.destination)
    (hfiles : s.files = s'.files) (hexclude : s.exclude = s'.exclude)
    (htag : s.tagDetail = s'.tagDetail) (hattribute : s.attributeDetail = s'.attributeDetail) :
    s = s' := by
  cases s
  cases s'
  subst hdestination hfiles hexclude htag hattribute
  rfl

theorem apply_apply (s : Settings) (l : Layer) : (s.apply l).apply l = s.apply l := by
  apply ext_fields
  · exact Field.destination.get_apply_apply s l
  · exact Field.files.get_apply_apply s l
  · exact Field.exclude.get_apply_apply s l
  · exact Field.tagDetail.get_apply_apply s l
  · exact Field.attributeDetail.get_apply_apply s l

/-! ## 3. Settings without empty texts -/

/-- No text in the settings is empty. -/
structure Filled (s : Settings) : Prop where
  destination : s.destination ≠ ""
  files : s.files ≠ ""
  exclude : "" ∉ s.exclude

theorem getD_filter_ne_empty (value : Option String) {old : String} (hold : old ≠ "") :
    (value.filter (· ≠ "")).getD old ≠ "" := by
  cases h : value.filter (· ≠ "") with
  | none => exact hold
  | some v => exact of_decide_eq_true (Option.filter_eq_some_iff.mp h).2

theorem filled_default : Filled {} := ⟨by decide, by decide, by decide⟩

theorem Filled.apply {s : Settings} (h : s.Filled) (l : Layer) : (s.apply l).Filled where
  destination := getD_filter_ne_empty l.destination h.destination
  files := getD_filter_ne_empty l.files h.files
  exclude := by
    unfold Settings.apply
    cases l.exclude with
    | none => exact h.exclude
    | some globs => exact fun hmem => of_decide_eq_true (List.mem_filter.mp hmem).2 rfl

theorem Filled.foldl {s : Settings} (h : s.Filled) (layers : List Layer) :
    (layers.foldl Settings.apply s).Filled := by
  induction layers generalizing s with
  | nil => exact h
  | cons l layers ih => exact ih (h.apply l)

/-- Layers decide about a field: it has what the last of them sets that sets it, and one more layer
that leaves it unset does not change it. -/
structure Field.Decided {α : Type} (f : Field α) (layers : List Layer) : Prop where
  last : f.Last layers (f.get (layers.foldl apply {}))
  kept : ∀ l, (∀ v, ¬ f.Sets l v) →
    f.get ((layers.foldl apply {}).apply l) = f.get (layers.foldl apply {})

theorem Field.decided {α : Type} (f : Field α) (layers : List Layer) : f.Decided layers where
  last := f.last_foldl_apply layers
  kept _ h := f.get_apply_of_unset h

/-- Behind any number of layers, each field has what the last layer sets, no text is empty, and a
layer that comes twice in a row counts once. -/
theorem foldl_apply_decided (layers : List Layer) :
    (Field.destination.Decided layers ∧ Field.files.Decided layers ∧
      Field.exclude.Decided layers ∧ Field.tagDetail.Decided layers ∧
      Field.attributeDetail.Decided layers) ∧
    (layers.foldl apply ({} : Settings)).Filled ∧
    ∀ l, ((layers.foldl apply ({} : Settings)).apply l).apply l =
      (layers.foldl apply ({} : Settings)).apply l := by
  refine ⟨⟨?destination, ?files, ?exclude, ?tagDetail, ?attributeDetail⟩, ?filled, ?twice⟩
  case destination => exact Field.destination.decided layers
  case files => exact Field.files.decided layers
  case exclude => exact Field.exclude.decided layers
  case tagDetail => exact Field.tagDetail.decided layers
  case attributeDetail => exact Field.attributeDetail.decided layers
  case filled => exact filled_default.foldl layers
  case twice => exact apply_apply _

/-- A list without globs is set; an empty text is not. -/
example : ({} : Settings).apply { exclude := some [""], files := some "" } = { exclude := [] } := by
  decide

end MarkupCatalog.Settings

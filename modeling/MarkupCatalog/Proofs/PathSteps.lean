import MarkupCatalog.FileSystem.Resolve

/-!
# How paths are followed

What following a path does with its first component, as equations, and the ways to follow a path to
its end, as a relation.  What holds of the places that paths lead to is shown along `Follows`, which
has a rule for each step that does not fail.
-/

namespace MarkupCatalog.FileSystem

variable {fs : FileSystem} {followLast : Bool} {links : Nat} {place : Place} {name : RawText}
  {r : List Path.Component}

/-! ## 1. Steps -/

section Steps

theorem follow_nil {node : Node} (hnode : fs.at? place = some node) :
    fs.follow followLast links place [] = .ok (.present place node) := by
  rw [follow.eq_def]
  simp only [hnode]

theorem follow_nil_missing (hnode : fs.at? place = none) :
    fs.follow followLast links place [] = .error .notFound := by
  rw [follow.eq_def]
  simp only [hnode]

theorem follow_root : fs.follow followLast links place (.root :: r) =
    fs.follow followLast links [] r := by
  rw [follow]

theorem follow_here : fs.follow followLast links place (.here :: r) =
    fs.follow followLast links place r := by
  rw [follow]

theorem follow_up : fs.follow followLast links place (.up :: r) =
    fs.follow followLast links place.dropLast r := by
  rw [follow]

theorem follow_name_long (hlong : name.bytes.length > maxNameSize) :
    fs.follow followLast links place (.name name :: r) = .error .nameTooLong := by
  rw [follow.eq_def]
  simp only [if_pos hlong]

variable (hshort : ¬ name.bytes.length > maxNameSize)

include hshort

theorem follow_name_absent (hmissing : fs.at? (place ++ [name]) = none) :
    fs.follow followLast links place [.name name] = .ok (.absent place name) := by
  rw [follow.eq_def]
  simp only [if_neg hshort, hmissing]

theorem follow_name_missing {c : Path.Component} (hmissing : fs.at? (place ++ [name]) = none) :
    fs.follow followLast links place (.name name :: c :: r) = .error .notFound := by
  rw [follow.eq_def]
  simp only [if_neg hshort, hmissing]

theorem follow_name_file {content : ByteArray}
    (hfile : fs.at? (place ++ [name]) = some (.file content)) :
    fs.follow followLast links place [.name name] =
      .ok (.present (place ++ [name]) (.file content)) := by
  rw [follow.eq_def]
  simp only [if_neg hshort, hfile]

/-- Nothing stands below a file. -/
theorem follow_name_belowFile {c : Path.Component} {content : ByteArray}
    (hfile : fs.at? (place ++ [name]) = some (.file content)) :
    fs.follow followLast links place (.name name :: c :: r) = .error .notDirectory := by
  rw [follow.eq_def]
  simp only [if_neg hshort, hfile]

theorem follow_name_directory {entries : List (RawText × Node)}
    (hdirectory : fs.at? (place ++ [name]) = some (.directory entries)) :
    fs.follow followLast links place (.name name :: r) =
      fs.follow followLast links (place ++ [name]) r := by
  rw [follow.eq_def]
  simp only [if_neg hshort, hdirectory]

variable {target : RawText} (hlink : fs.at? (place ++ [name]) = some (.link target))

include hlink

theorem follow_name_lastLink (hlast : r = [] ∧ (!followLast) = true) :
    fs.follow followLast links place (.name name :: r) =
      .ok (.present (place ++ [name]) (.link target)) := by
  rw [follow.eq_def]
  simp only [if_neg hshort, hlink, if_pos hlast]

variable (hlast : ¬ (r = [] ∧ (!followLast) = true))

include hlast

theorem follow_name_manyLinks :
    fs.follow followLast 0 place (.name name :: r) = .error .tooManyLinks := by
  rw [follow.eq_def]
  simp only [if_neg hshort, hlink, if_neg hlast]

theorem follow_name_emptyLink (htarget : target.bytes = []) :
    fs.follow followLast (links + 1) place (.name name :: r) = .error .notFound := by
  rw [follow.eq_def]
  simp only [if_neg hshort, hlink, if_neg hlast, if_pos htarget]

/-- A link is followed from the directory that holds it. -/
theorem follow_name_link (htarget : target.bytes ≠ []) :
    fs.follow followLast (links + 1) place (.name name :: r) =
      fs.follow followLast links place (Path.components ⟨target⟩ ++ r) := by
  rw [follow.eq_def]
  simp only [if_neg hshort, hlink, if_neg hlast, if_neg htarget]

end Steps

/-! ## 2. Paths that lead somewhere -/

/-- Components lead from a place to a target. -/
inductive Follows (fs : FileSystem) (followLast : Bool) :
    Nat → Place → List Path.Component → Target → Prop
  | nil {links : Nat} {place : Place} {node : Node} (hnode : fs.at? place = some node) :
      Follows fs followLast links place [] (.present place node)
  | root {links : Nat} {place : Place} {r : List Path.Component} {t : Target}
      (rest : Follows fs followLast links [] r t) :
      Follows fs followLast links place (.root :: r) t
  | here {links : Nat} {place : Place} {r : List Path.Component} {t : Target}
      (rest : Follows fs followLast links place r t) :
      Follows fs followLast links place (.here :: r) t
  | up {links : Nat} {place : Place} {r : List Path.Component} {t : Target}
      (rest : Follows fs followLast links place.dropLast r t) :
      Follows fs followLast links place (.up :: r) t
  | absent {links : Nat} {place : Place} {name : RawText}
      (hshort : ¬ name.bytes.length > maxNameSize) (hmissing : fs.at? (place ++ [name]) = none) :
      Follows fs followLast links place [.name name] (.absent place name)
  | file {links : Nat} {place : Place} {name : RawText} {content : ByteArray}
      (hshort : ¬ name.bytes.length > maxNameSize)
      (hfile : fs.at? (place ++ [name]) = some (.file content)) :
      Follows fs followLast links place [.name name] (.present (place ++ [name]) (.file content))
  | directory {links : Nat} {place : Place} {name : RawText} {entries : List (RawText × Node)}
      {r : List Path.Component} {t : Target} (hshort : ¬ name.bytes.length > maxNameSize)
      (hdirectory : fs.at? (place ++ [name]) = some (.directory entries))
      (rest : Follows fs followLast links (place ++ [name]) r t) :
      Follows fs followLast links place (.name name :: r) t
  | lastLink {links : Nat} {place : Place} {name target : RawText} {r : List Path.Component}
      (hshort : ¬ name.bytes.length > maxNameSize)
      (hlink : fs.at? (place ++ [name]) = some (.link target))
      (hlast : r = [] ∧ (!followLast) = true) :
      Follows fs followLast links place (.name name :: r)
        (.present (place ++ [name]) (.link target))
  | link {links : Nat} {place : Place} {name target : RawText} {r : List Path.Component}
      {t : Target} (hshort : ¬ name.bytes.length > maxNameSize)
      (hlink : fs.at? (place ++ [name]) = some (.link target))
      (hlast : ¬ (r = [] ∧ (!followLast) = true)) (htarget : target.bytes ≠ [])
      (rest : Follows fs followLast links place (Path.components ⟨target⟩ ++ r) t) :
      Follows fs followLast (links + 1) place (.name name :: r) t

theorem follow_eq_ok_iff {components : List Path.Component} {t : Target} :
    fs.follow followLast links place components = .ok t ↔
      Follows fs followLast links place components t := by
  constructor
  · intro h
    fun_induction follow fs followLast links place components with
    | case1 links place node hnode =>
      cases h
      exact .nil hnode
    -- what is missing, too long, below a file or an empty link
    | case2 | case6 | case8 | case14 => cases h
    | case3 links place r ih => exact .root (ih h)
    | case4 links place r ih => exact .here (ih h)
    | case5 links place r ih => exact .up (ih h)
    | case7 links place name hshort hmissing =>
      cases h
      exact .absent hshort hmissing
    | case9 links place name r hshort target hlink hlast =>
      rw [if_pos hlast] at h
      cases h
      exact .lastLink hshort hlink hlast
    | case10 place name r hshort target hlink hlast =>
      rw [if_neg hlast] at h
      cases h
    | case11 place name r hshort target hlink hlast links htarget =>
      simp only [if_neg hlast, if_pos htarget] at h
      cases h
    | case12 place name r hshort target hlink hlast links htarget ih =>
      simp only [if_neg hlast, if_neg htarget] at h
      exact .link hshort hlink hlast htarget (ih h)
    | case13 links place name hshort content hfile =>
      cases h
      exact .file hshort hfile
    | case15 links place name hshort entries r hdirectory ih =>
      exact .directory hshort hdirectory (ih h)
  · intro h
    induction h with
    | nil hnode => exact follow_nil hnode
    | root _ ih => exact follow_root.trans ih
    | here _ ih => exact follow_here.trans ih
    | up _ ih => exact follow_up.trans ih
    | absent hshort hmissing => exact follow_name_absent hshort hmissing
    | file hshort hfile => exact follow_name_file hshort hfile
    | directory hshort hdirectory _ ih => exact (follow_name_directory hshort hdirectory).trans ih
    | lastLink hshort hlink hlast => exact follow_name_lastLink hshort hlink hlast
    | link hshort hlink hlast htarget _ ih =>
      exact (follow_name_link hshort hlink hlast htarget).trans ih

end MarkupCatalog.FileSystem

import MarkupCatalog.FileSystem.Access
import MarkupCatalog.Proofs.PathSteps

/-!
# File trees

In a file system as they are, the entries of a directory have different names, and no name could be
taken for something else in a path.  The order in which directories list their entries then makes no
difference to where a path leads.
-/

namespace MarkupCatalog

/-! ## 1. Proper trees -/

/-- A name that an entry of a directory can have. -/
structure IsEntryName (name : RawText) : Prop where
  nonempty : name.bytes ≠ []
  noSlash : Path.slash ∉ name.bytes
  notHere : name.bytes ≠ [Path.dot]
  notUp : name.bytes ≠ [Path.dot, Path.dot]

namespace Node

/-- In each directory, the entries have names that entries can have, and different ones. -/
inductive Proper : Node → Prop
  | file (content : ByteArray) : Proper (file content)
  | link (target : RawText) : Proper (link target)
  | directory {entries : List (RawText × Node)} (distinct : (entries.map Prod.fst).Nodup)
      (names : ∀ e ∈ entries, IsEntryName e.1) (inside : ∀ e ∈ entries, e.2.Proper) :
      Proper (directory entries)

theorem Proper.nil : (Node.directory []).Proper :=
  .directory List.nodup_nil (fun _ he => absurd he List.not_mem_nil)
    fun _ he => absurd he List.not_mem_nil

section Directory

variable {entries : List (RawText × Node)} (h : (Node.directory entries).Proper)

include h

theorem Proper.distinct : (entries.map Prod.fst).Nodup := by
  cases h with
  | directory distinct names inside => exact distinct

theorem Proper.isEntryName {e : RawText × Node} (he : e ∈ entries) : IsEntryName e.1 := by
  cases h with
  | directory distinct names inside => exact names e he

theorem Proper.inside {e : RawText × Node} (he : e ∈ entries) : e.2.Proper := by
  cases h with
  | directory distinct names inside => exact inside e he

theorem Proper.cons {name : RawText} {node : Node} (hname : IsEntryName name)
    (hnew : name ∉ entries.map Prod.fst) (hnode : node.Proper) :
    (Node.directory ((name, node) :: entries)).Proper := by
  apply Proper.directory
  · exact List.nodup_cons.mpr ⟨hnew, h.distinct⟩
  · intro e he
    rcases List.mem_cons.mp he with rfl | he
    · exact hname
    · exact h.isEntryName he
  · intro e he
    rcases List.mem_cons.mp he with rfl | he
    · exact hnode
    · exact h.inside he

end Directory

theorem mem_of_named? {name : RawText} {node : Node} {entries : List (RawText × Node)}
    (h : named? name entries = some node) : (name, node) ∈ entries := by
  induction entries with
  | nil => cases h
  | cons e entries ih =>
    obtain ⟨n, child⟩ := e
    rw [named?] at h
    by_cases hn : n = name
    · rw [if_pos hn] at h
      obtain rfl : child = node := Option.some.inj h
      rw [hn]
      exact List.mem_cons_self
    · rw [if_neg hn] at h
      exact List.mem_cons_of_mem _ (ih h)

theorem named?_eq_some_iff {name : RawText} {node : Node} {entries : List (RawText × Node)}
    (hdistinct : (entries.map Prod.fst).Nodup) :
    named? name entries = some node ↔ (name, node) ∈ entries := by
  refine ⟨mem_of_named?, fun h => ?_⟩
  induction entries with
  | nil => cases h
  | cons e entries ih =>
    obtain ⟨n, child⟩ := e
    obtain ⟨hnew, hdistinct⟩ := List.nodup_cons.mp hdistinct
    rw [named?]
    rcases List.mem_cons.mp h with h | h
    · obtain ⟨rfl, rfl⟩ := Prod.mk.inj h
      exact if_pos rfl
    · have hn : n ≠ name := by
        rintro rfl
        exact hnew (List.mem_map.mpr ⟨_, h, rfl⟩)
      rw [if_neg hn]
      exact ih hdistinct h

theorem at?_directory (entries : List (RawText × Node)) (name : RawText) (names : List RawText) :
    (directory entries).at? (name :: names) =
      (named? name entries).bind fun child => child.at? names := rfl

theorem at?_append (node : Node) (names more : List RawText) :
    node.at? (names ++ more) = (node.at? names).bind fun child => child.at? more := by
  induction names generalizing node with
  | nil => rfl
  | cons name names ih =>
    cases node with
    | directory entries =>
      rw [List.cons_append, at?_directory, at?_directory, Option.bind_assoc]
      exact congrArg _ (funext fun child => ih child)
    | _ => rfl

/-! ## 2. Trees that differ in the order of entries -/

/-- The same tree, with the entries of directories in other places. -/
inductive Reordered : Node → Node → Prop
  | refl (node : Node) : Reordered node node
  | perm {entries entries' : List (RawText × Node)} (h : entries.Perm entries') :
      Reordered (directory entries) (directory entries')
  | inside {before after : List (RawText × Node)} {name : RawText} {child child' : Node}
      (h : Reordered child child') :
      Reordered (directory (before ++ (name, child) :: after))
        (directory (before ++ (name, child') :: after))
  | trans {node node' node'' : Node} (h : Reordered node node') (h' : Reordered node' node'') :
      Reordered node node''

/-- What stands at the top of a tree. -/
def top : Node → Node
  | directory _ => directory []
  | node => node

/-- What a node is, whatever a file or a directory holds. -/
def kind : Node → Node
  | file _ => file .empty
  | link target => link target
  | directory _ => directory []

theorem kind_top (node : Node) : node.top.kind = node.kind := by cases node <;> rfl

/-- The same stands at every place of two trees. -/
def Alike (node node' : Node) : Prop :=
  ∀ names : List RawText, (node.at? names).map top = (node'.at? names).map top

namespace Alike

variable {node node' : Node}

theorem symm (h : Alike node node') : Alike node' node := fun names => (h names).symm

theorem at? (h : Alike node node') (names : List RawText) :
    Option.Rel Alike (node.at? names) (node'.at? names) := by
  have hnames := h names
  cases hnode : node.at? names with
  | none =>
    rw [hnode] at hnames
    rw [Option.map_eq_none_iff.mp hnames.symm]
    exact .none
  | some child =>
    cases hnode' : node'.at? names with
    | none =>
      rw [hnode, hnode'] at hnames
      cases hnames
    | some child' =>
      apply Option.Rel.some
      intro more
      have hmore := h (names ++ more)
      rwa [at?_append, at?_append, hnode, hnode'] at hmore

variable {names : List RawText}

end Alike

theorem Proper.at? {node child : Node} (hproper : node.Proper) {names : List RawText}
    (h : node.at? names = some child) : child.Proper := by
  induction names generalizing node with
  | nil =>
    obtain rfl : node = child := Option.some.inj h
    exact hproper
  | cons name names ih =>
    cases node with
    | directory entries =>
      rw [at?_directory] at h
      obtain ⟨next, hnext, h⟩ := Option.bind_eq_some_iff.mp h
      exact ih (hproper.inside (mem_of_named? hnext)) h
    | _ => cases h

/-- The names that lead to a node. -/
theorem Proper.names_of_at? {node child : Node} (hproper : node.Proper) {names : List RawText}
    (h : node.at? names = some child) : ∀ name ∈ names, IsEntryName name := by
  induction names generalizing node with
  | nil => exact fun _ hname => absurd hname List.not_mem_nil
  | cons name names ih =>
    cases node with
    | directory entries =>
      rw [at?_directory] at h
      obtain ⟨next, hnext, h⟩ := Option.bind_eq_some_iff.mp h
      intro n hn
      rcases List.mem_cons.mp hn with rfl | hn
      · exact hproper.isEntryName (mem_of_named? hnext)
      · exact ih (hproper.inside (mem_of_named? hnext)) h n hn
    | _ => cases h

end Node

/-! ## 3. Where paths lead -/

namespace FileSystem

def Proper (fs : FileSystem) : Prop := (Node.directory fs.entries).Proper

/-- The same file system, with the entries of directories in other places. -/
def Reordered (fs fs' : FileSystem) : Prop :=
  (Node.directory fs.entries).Reordered (.directory fs'.entries)

theorem at?_of_follow {fs : FileSystem} {followLast : Bool} {links : Nat} {start place : Place}
    {components : List Path.Component} {node : Node}
    (h : fs.follow followLast links start components = .ok (.present place node)) :
    fs.at? place = some node := by
  replace h := follow_eq_ok_iff.mp h
  generalize ht : Target.present place node = t at h
  induction h with
  | nil hnode =>
    cases ht
    exact hnode
  | file _ hfile =>
    cases ht
    exact hfile
  | lastLink _ hlink _ =>
    cases ht
    exact hlink
  | absent => cases ht
  | root _ ih | here _ ih | up _ ih | directory _ _ _ ih | link _ _ _ _ _ ih => exact ih ht

theorem at?_of_locate {fs : FileSystem} {followLast : Bool} {p : Path} {place : Place} {node : Node}
    (h : fs.locate followLast p = .ok (.present place node)) : fs.at? place = some node := by
  unfold locate at h
  split at h
  next => cases h
  next =>
    split at h
    next => cases h
    next => exact at?_of_follow h

theorem at?_of_target {fs : FileSystem} {followLast : Bool} {p : Path} {place : Place} {node : Node}
    (h : fs.target followLast p = .ok (.present place node)) : fs.at? place = some node := by
  unfold target at h
  split at h
  next place' content hfound =>
    split at h
    next => cases h
    next =>
      cases h
      exact at?_of_locate hfound
  next => exact at?_of_locate h

theorem Proper.directory? {fs : FileSystem} (hproper : fs.Proper) {p : Path}
    {entries : List (RawText × Node)} (h : fs.directory? p = some entries) :
    (Node.directory entries).Proper := by
  unfold FileSystem.directory? node? at h
  cases htarget : fs.target true p with
  | error e =>
    rw [htarget] at h
    cases h
  | ok found =>
    rw [htarget] at h
    cases found with
    | absent place name => cases h
    | present place node =>
      cases node with
      | directory entries' =>
        obtain rfl : entries' = entries := Option.some.inj h
        exact Node.Proper.at? hproper (at?_of_target htarget)
      | _ => cases h

/-- What stands anywhere still stands there, but files may have other content. -/
def Extends (fs fs' : FileSystem) : Prop :=
  ∀ place node, fs.at? place = some node →
    ∃ node', fs'.at? place = some node' ∧ node'.kind = node.kind

section Extends

variable {fs fs' : FileSystem} (h : fs.Extends fs')

include h

theorem Extends.directory {place : Place} {entries : List (RawText × Node)}
    (hnode : fs.at? place = some (.directory entries)) :
    ∃ entries', fs'.at? place = some (.directory entries') := by
  obtain ⟨node', hnode', hkind⟩ := h place _ hnode
  cases node' with
  | directory entries' => exact ⟨entries', hnode'⟩
  | _ => cases hkind

theorem Extends.link {place : Place} {target : RawText}
    (hnode : fs.at? place = some (.link target)) : fs'.at? place = some (.link target) := by
  obtain ⟨node', hnode', hkind⟩ := h place _ hnode
  cases node' with
  | link target' =>
    cases hkind
    exact hnode'
  | _ => cases hkind

theorem Extends.file {place : Place} {content : ByteArray}
    (hnode : fs.at? place = some (.file content)) :
    ∃ content', fs'.at? place = some (.file content') := by
  obtain ⟨node', hnode', hkind⟩ := h place _ hnode
  cases node' with
  | file content' => exact ⟨content', hnode'⟩
  | _ => cases hkind

end Extends

/-- What a path leads to, whatever a file or a directory holds. -/
def Target.kind : Target → Target
  | present place node => present place node.kind
  | absent dir name => absent dir name

/-- Paths are followed by what stands at places, and not by what files and directories hold. -/
theorem follow_congr {fs fs' : FileSystem} (h : fs.Extends fs')
    (hmissing : ∀ place, fs.at? place = none → fs'.at? place = none) (followLast : Bool)
    (links : Nat) (place : Place) (components : List Path.Component) :
    (fs'.follow followLast links place components).map Target.kind =
      (fs.follow followLast links place components).map Target.kind := by
  -- both take the same steps: the directories and links are the same, and files end the path
  induction links, place, components using follow.induct fs followLast with
  | case1 links place node hnode =>
    obtain ⟨node', hnode', hkind⟩ := h place node hnode
    rw [follow_nil hnode, follow_nil hnode']
    exact congrArg (fun kind => Except.ok (Target.present place kind)) hkind
  | case2 links place hnode =>
    rw [follow_nil_missing hnode, follow_nil_missing (hmissing place hnode)]
  | case3 links place r ih =>
    rw [follow_root, follow_root]
    exact ih
  | case4 links place r ih =>
    rw [follow_here, follow_here]
    exact ih
  | case5 links place r ih =>
    rw [follow_up, follow_up]
    exact ih
  | case6 links place n r hlong => rw [follow_name_long hlong, follow_name_long hlong]
  | case7 links place n hshort hnode =>
    rw [follow_name_absent hshort hnode, follow_name_absent hshort (hmissing _ hnode)]
  | case8 links place n hshort c r hnode =>
    rw [follow_name_missing hshort hnode, follow_name_missing hshort (hmissing _ hnode)]
  | case9 links place n r hshort target hlink hlast =>
    rw [follow_name_lastLink hshort hlink hlast, follow_name_lastLink hshort (h.link hlink) hlast]
  | case10 place n r hshort target hlink hlast =>
    rw [follow_name_manyLinks hshort hlink hlast,
      follow_name_manyLinks hshort (h.link hlink) hlast]
  | case11 place n r hshort target hlink hlast links htarget =>
    rw [follow_name_emptyLink hshort hlink hlast htarget,
      follow_name_emptyLink hshort (h.link hlink) hlast htarget]
  | case12 place n r hshort target hlink hlast links htarget ih =>
    rw [follow_name_link hshort hlink hlast htarget,
      follow_name_link hshort (h.link hlink) hlast htarget]
    exact ih
  | case13 links place n hshort content hfile =>
    obtain ⟨content', hfile'⟩ := h.file hfile
    rw [follow_name_file hshort hfile, follow_name_file hshort hfile']
    rfl
  | case14 links place n hshort content c r hfile =>
    obtain ⟨content', hfile'⟩ := h.file hfile
    rw [follow_name_belowFile hshort hfile, follow_name_belowFile hshort hfile']
  | case15 links place n hshort entries r hdirectory ih =>
    obtain ⟨entries', hdirectory'⟩ := h.directory hdirectory
    rw [follow_name_directory hshort hdirectory, follow_name_directory hshort hdirectory']
    exact ih

/-- What two lookups have in common that differ in what files and directories hold. -/
theorem Target.cases_of_map_kind {found found' : Except FileFault Target}
    (h : found'.map kind = found.map kind) :
    (∃ e, found = .error e ∧ found' = .error e) ∨
    (∃ dir name, found = .ok (absent dir name) ∧ found' = .ok (absent dir name)) ∨
    ∃ place node node', found = .ok (present place node) ∧ found' = .ok (present place node') := by
  cases found with
  | error e =>
    cases found' with
    | error e' =>
      cases h
      exact .inl ⟨e, rfl, rfl⟩
    | ok t' => cases h
  | ok t =>
    cases found' with
    | error e' => cases h
    | ok t' =>
      have hkind : t'.kind = t.kind := Except.ok.inj h
      cases t with
      | absent dir name =>
        cases t' with
        | absent dir' name' =>
          cases hkind
          exact .inr (.inl ⟨dir, name, rfl, rfl⟩)
        | present => cases hkind
      | present place node =>
        cases t' with
        | absent => cases hkind
        | present place' node' =>
          obtain rfl := (Target.present.inj hkind).1
          exact .inr (.inr ⟨place', node, node', rfl, rfl⟩)

section Alike

variable {fs fs' : FileSystem} (h : (Node.directory fs.entries).Alike (.directory fs'.entries))

include h

end Alike

end FileSystem
end MarkupCatalog

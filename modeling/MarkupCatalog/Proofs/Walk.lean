import Mathlib.Data.List.Nodup
import MarkupCatalog.Proofs.FileTrees
import MarkupCatalog.Proofs.PathOrder
import MarkupCatalog.Selection

/-!
# The walk below a directory

Which files the walk of a selection finds, and in which order they come.  The walk reaches a file
exactly if no directory on the way is skipped or excluded, so that membership is a statement on the
names that lead to the file, and the order in which directories list their entries does not count.
-/

namespace MarkupCatalog

namespace Selection

/-! ## 1. What the walk finds -/

/-- What the walk finds at an entry. -/
def found (s : Selection) (above : List RawText) (e : RawText × Node) : List (List RawText) :=
  if isSkippedName e.1 then []
  else match e.2 with
    | .file _ =>
      if !s.excludes (above ++ [e.1]) false && s.takes (above ++ [e.1]) e.1 then [above ++ [e.1]]
      else []
    | .link _ => []
    | .directory entries =>
      if s.excludes (above ++ [e.1]) true then [] else s.walk (above ++ [e.1]) entries

theorem walk_eq_flatMap (s : Selection) (above : List RawText) (entries : List (RawText × Node)) :
    s.walk above entries = entries.flatMap (s.found above) := by
  induction entries with
  | nil => rw [walk, List.flatMap_nil]
  | cons e entries ih =>
    obtain ⟨name, node⟩ := e
    rw [List.flatMap_cons, ← ih]
    cases node <;> rw [walk] <;> rfl

section Found

variable {s : Selection} {above names : List RawText} {name : RawText}

theorem mem_found_file {content : ByteArray} :
    names ∈ s.found above (name, .file content) ↔ isSkippedName name = false ∧
      names = above ++ [name] ∧ s.excludes names false = false ∧ s.takes names name = true := by
  unfold found
  dsimp only
  split
  next h => simp [h]
  next h =>
    rw [Bool.not_eq_true] at h
    split
    next htaken =>
      rw [Bool.and_eq_true, Bool.not_eq_true'] at htaken
      rw [List.mem_singleton]
      exact ⟨fun hnames => ⟨h, hnames, hnames ▸ htaken⟩, fun hnames => hnames.2.1⟩
    next htaken =>
      rw [Bool.and_eq_true, Bool.not_eq_true'] at htaken
      refine ⟨fun hnames => absurd hnames List.not_mem_nil, ?_⟩
      rintro ⟨-, rfl, htaken'⟩
      exact absurd htaken' htaken

theorem not_mem_found_link {target : RawText} : names ∉ s.found above (name, .link target) := by
  unfold found
  dsimp only
  rw [ite_self]
  exact List.not_mem_nil

theorem mem_found_directory {entries : List (RawText × Node)} :
    names ∈ s.found above (name, .directory entries) ↔ isSkippedName name = false ∧
      s.excludes (above ++ [name]) true = false ∧ names ∈ s.walk (above ++ [name]) entries := by
  unfold found
  dsimp only
  split
  next h => simp [h]
  next h =>
    rw [Bool.not_eq_true] at h
    split
    next hexcluded => simp [hexcluded]
    next hexcluded =>
      rw [Bool.not_eq_true] at hexcluded
      simp [h, hexcluded]

end Found

/-- What is found at an entry lies at or below it. -/
theorem names_of_mem_found {s : Selection} {node : Node} (hproper : node.Proper)
    {above names : List RawText} {name : RawText} (h : names ∈ s.found above (name, node)) :
    ∃ rest, names = above ++ name :: rest := by
  induction hproper generalizing above name with
  | file content =>
    obtain ⟨-, hnames, -⟩ := mem_found_file.mp h
    exact ⟨[], hnames⟩
  | link target => exact absurd h not_mem_found_link
  | directory distinct valid inside ih =>
    obtain ⟨-, -, hwalk⟩ := mem_found_directory.mp h
    rw [walk_eq_flatMap] at hwalk
    obtain ⟨e, he, hfound⟩ := List.mem_flatMap.mp hwalk
    obtain ⟨rest, hnames⟩ := ih e he hfound
    exact ⟨e.1 :: rest, by rw [hnames, List.append_assoc]; rfl⟩

theorem nodup_flatMap_found {s : Selection} {entries : List (RawText × Node)} {above : List RawText}
    (hproper : (Node.directory entries).Proper) (h : ∀ e ∈ entries, (s.found above e).Nodup) :
    (entries.flatMap (s.found above)).Nodup := by
  rw [List.nodup_flatMap]
  refine ⟨h, (List.pairwise_map.mp hproper.distinct).imp_of_mem ?_⟩
  -- what is found at entries of different names differs in these names
  intro e e' he he' hne names hfound hfound'
  obtain ⟨rest, hnames⟩ := names_of_mem_found (hproper.inside he) hfound
  obtain ⟨rest', hnames'⟩ := names_of_mem_found (hproper.inside he') hfound'
  have hrest : e.1 :: rest = e'.1 :: rest' :=
    List.append_cancel_left (hnames.symm.trans hnames')
  exact hne (List.cons.inj hrest).1

theorem nodup_found (s : Selection) {node : Node} (hproper : node.Proper) (above : List RawText)
    (name : RawText) : (s.found above (name, node)).Nodup := by
  induction hproper generalizing above name with
  | file content =>
    unfold found
    dsimp only
    split
    next => exact List.nodup_nil
    next =>
      split
      next => exact List.nodup_singleton _
      next => exact List.nodup_nil
  | link target =>
    unfold found
    dsimp only
    rw [ite_self]
    exact List.nodup_nil
  | @directory entries distinct valid inside ih =>
    unfold found
    dsimp only
    split
    next => exact List.nodup_nil
    next =>
      split
      next => exact List.nodup_nil
      next =>
        rw [walk_eq_flatMap]
        exact nodup_flatMap_found (.directory distinct valid inside)
          fun e he => ih e he (above ++ [name]) e.1

/-- The walk finds nothing twice. -/
theorem nodup_walk (s : Selection) {entries : List (RawText × Node)}
    (hproper : (Node.directory entries).Proper) (above : List RawText) :
    (s.walk above entries).Nodup := by
  rw [walk_eq_flatMap]
  exact nodup_flatMap_found hproper fun e he => nodup_found s (hproper.inside he) above e.1

/-! ## 2. Which files are selected -/

/-- A selection takes the file to which names lead below a directory, whose own names are `above`:
no name is skipped, no directory on the way and not the file is excluded, and the file is included
and holds source text. -/
structure Selects (s : Selection) (above : List RawText) (entries : List (RawText × Node))
    (names : List RawText) : Prop where
  isFile : ∃ content, (Node.directory entries).at? names = some (.file content)
  shown : ∀ name ∈ names, isSkippedName name = false
  entered : ∀ before after, names = before ++ after → before ≠ [] → after ≠ [] →
    s.excludes (above ++ before) true = false
  kept : s.excludes (above ++ names) false = false
  included : s.included.applies (above ++ names) false = true
  isSource : names.getLast?.any isSourceName = true

section Selects

variable {s : Selection} {above : List RawText} {entries : List (RawText × Node)}

theorem not_selects_nil : ¬ s.Selects above entries [] := by
  rintro ⟨⟨content, hfile⟩, -⟩
  cases Option.some.inj hfile

theorem selects_file {name : RawText} {names : List RawText} {content : ByteArray}
    (h : Node.named? name entries = some (.file content)) :
    s.Selects above entries (name :: names) ↔ names = [] ∧ isSkippedName name = false ∧
      s.excludes (above ++ [name]) false = false ∧ s.takes (above ++ [name]) name = true := by
  unfold takes
  rw [Bool.and_eq_true]
  constructor
  · intro hselects
    obtain ⟨content', hfile⟩ := hselects.isFile
    rw [Node.at?_directory, h] at hfile
    -- a file has nothing below it
    cases names with
    | nil =>
      exact ⟨rfl, hselects.shown name List.mem_cons_self, hselects.kept, hselects.included,
        hselects.isSource⟩
    | cons n names => cases hfile
  · rintro ⟨rfl, hshown, hkept, hincluded, hsource⟩
    constructor
    case isFile => exact ⟨content, by rw [Node.at?_directory, h]; rfl⟩
    case shown =>
      intro n hn
      rwa [List.mem_singleton.mp hn]
    case entered =>
      intro before after hnames hbefore hafter
      rcases List.append_eq_singleton_iff.mp hnames.symm with ⟨hempty, -⟩ | ⟨-, hempty⟩
      · exact absurd hempty hbefore
      · exact absurd hempty hafter
    case kept => exact hkept
    case included => exact hincluded
    case isSource => exact hsource

theorem selects_directory {name : RawText} {names : List RawText} {inner : List (RawText × Node)}
    (h : Node.named? name entries = some (.directory inner)) :
    s.Selects above entries (name :: names) ↔ isSkippedName name = false ∧
      s.excludes (above ++ [name]) true = false ∧ s.Selects (above ++ [name]) inner names := by
  have hat : (Node.directory entries).at? (name :: names) = (Node.directory inner).at? names := by
    rw [Node.at?_directory, h]
    rfl
  have hassoc (more : List RawText) : above ++ [name] ++ more = above ++ name :: more :=
    List.append_assoc _ _ _
  constructor
  · intro hselects
    -- the directory itself is no file, so that names are left
    have hne : names ≠ [] := by
      rintro rfl
      obtain ⟨content, hfile⟩ := hselects.isFile
      rw [hat] at hfile
      cases Option.some.inj hfile
    refine ⟨hselects.shown name List.mem_cons_self, ?_, ?_⟩
    · exact hselects.entered [name] names rfl (List.cons_ne_nil _ _) hne
    constructor
    case isFile => exact hat ▸ hselects.isFile
    case shown => exact fun n hn => hselects.shown n (List.mem_cons_of_mem _ hn)
    case entered =>
      intro before after hnames _ hafter
      rw [hassoc]
      exact hselects.entered (name :: before) after (by rw [hnames]; rfl) (List.cons_ne_nil _ _)
        hafter
    case kept => exact (hassoc names).symm ▸ hselects.kept
    case included => exact (hassoc names).symm ▸ hselects.included
    case isSource =>
      have hsource := hselects.isSource
      rwa [List.getLast?_cons_of_ne_nil hne] at hsource
  · rintro ⟨hshown, hentered, hselects⟩
    have hne : names ≠ [] := by
      rintro rfl
      exact not_selects_nil hselects
    constructor
    case isFile => exact hat ▸ hselects.isFile
    case shown =>
      intro n hn
      rcases List.mem_cons.mp hn with rfl | hn
      · exact hshown
      · exact hselects.shown n hn
    case entered =>
      intro before after hnames hbefore hafter
      cases before with
      | nil => exact absurd rfl hbefore
      | cons n before =>
        obtain ⟨rfl, rfl⟩ := List.cons.inj hnames
        rw [← hassoc]
        -- the directory is the one that was entered, or one below it
        by_cases hempty : before = []
        · rw [hempty, List.append_nil]
          exact hentered
        · exact hselects.entered before after rfl hempty hafter
    case kept => exact hassoc names ▸ hselects.kept
    case included => exact hassoc names ▸ hselects.included
    case isSource =>
      rw [List.getLast?_cons_of_ne_nil hne]
      exact hselects.isSource

/-- What stands under the first name decides about the names behind it. -/
theorem mem_walk_cons (hproper : (Node.directory entries).Proper) {name : RawText} {node : Node}
    {names : List RawText} (hnode : Node.named? name entries = some node) :
    above ++ name :: names ∈ s.walk above entries ↔
      above ++ name :: names ∈ s.found above (name, node) := by
  rw [walk_eq_flatMap, List.mem_flatMap]
  constructor
  · rintro ⟨⟨n, node'⟩, he, hfound⟩
    obtain ⟨rest, hnames⟩ := names_of_mem_found (hproper.inside he) hfound
    obtain ⟨rfl, -⟩ := List.cons.inj (List.append_cancel_left hnames)
    have hnode' := (Node.named?_eq_some_iff hproper.distinct).mpr he
    obtain rfl : node = node' := Option.some.inj (hnode.symm.trans hnode')
    exact hfound
  · exact fun hfound => ⟨(name, node), Node.mem_of_named? hnode, hfound⟩

/-- Each file that the walk finds lies under the name of an entry. -/
theorem exists_of_mem_walk (hproper : (Node.directory entries).Proper) {names : List RawText}
    (h : names ∈ s.walk above entries) :
    ∃ name rest node, names = above ++ name :: rest ∧ Node.named? name entries = some node := by
  rw [walk_eq_flatMap] at h
  obtain ⟨⟨name, node⟩, he, hfound⟩ := List.mem_flatMap.mp h
  obtain ⟨rest, hnames⟩ := names_of_mem_found (hproper.inside he) hfound
  exact ⟨name, rest, node, hnames, (Node.named?_eq_some_iff hproper.distinct).mpr he⟩

/-- The walk finds the files that are selected, and no others. -/
theorem mem_walk_iff (hproper : (Node.directory entries).Proper) {names : List RawText} :
    above ++ names ∈ s.walk above entries ↔ s.Selects above entries names := by
  -- along the names: each decides about the part of the tree that the others lead into
  induction names generalizing above entries with
  | nil =>
    refine ⟨fun h => ?_, fun h => absurd h not_selects_nil⟩
    obtain ⟨name, rest, node, hnames, -⟩ := exists_of_mem_walk hproper h
    cases List.append_cancel_left hnames
  | cons name names ih =>
    cases hnode : Node.named? name entries with
    | none =>
      constructor
      · intro h
        obtain ⟨n, rest, node, hnames, hn⟩ := exists_of_mem_walk hproper h
        obtain ⟨rfl, -⟩ := List.cons.inj (List.append_cancel_left hnames)
        cases hnode.symm.trans hn
      · intro hselects
        obtain ⟨content, hfile⟩ := hselects.isFile
        rw [Node.at?_directory, hnode] at hfile
        cases hfile
    | some node =>
      rw [mem_walk_cons hproper hnode]
      cases node with
      | file content =>
        have hnames : above ++ name :: names = above ++ [name] ↔ names = [] := by simp
        rw [mem_found_file, selects_file hnode, hnames]
        constructor
        · rintro ⟨hshown, rfl, hrest⟩
          exact ⟨rfl, hshown, hrest⟩
        · rintro ⟨rfl, hshown, hrest⟩
          exact ⟨hshown, rfl, hrest⟩
      | link target =>
        refine ⟨fun h => absurd h not_mem_found_link, fun hselects => ?_⟩
        obtain ⟨content, hfile⟩ := hselects.isFile
        rw [Node.at?_directory, hnode] at hfile
        cases names <;> cases hfile
      | directory inner =>
        have hinner : (Node.directory inner).Proper := hproper.inside (Node.mem_of_named? hnode)
        rw [mem_found_directory, selects_directory hnode, ← ih hinner, List.append_assoc]
        rfl

theorem Selects.names (hproper : (Node.directory entries).Proper) {names : List RawText}
    (h : s.Selects above entries names) : ∀ name ∈ names, IsEntryName name := by
  obtain ⟨content, hfile⟩ := h.isFile
  exact hproper.names_of_at? hfile

end Selects

/-! ## 3. The order of the files -/

theorem pairwise_sorted (files : List (List RawText)) :
    (sorted files).Pairwise fun as bs => inOrder as bs = true :=
  List.pairwise_mergeSort inOrder_trans inOrder_total files

theorem sorted_perm (files : List (List RawText)) : (sorted files).Perm files :=
  List.mergeSort_perm files inOrder

theorem sorted_eq_of_perm {files files' : List (List RawText)} (h : files.Perm files') :
    sorted files = sorted files' := by
  have hperm : (sorted files).Perm (sorted files') :=
    (sorted_perm files).trans (h.trans (sorted_perm files').symm)
  exact hperm.eq_of_pairwise (fun _ _ _ _ => inOrder_antisymm) (pairwise_sorted files)
    (pairwise_sorted files')

/-- Two walks come to the same where the same files are selected. -/
theorem sorted_walk_congr (s s' : Selection) {entries entries' : List (RawText × Node)}
    (hproper : (Node.directory entries).Proper) (hproper' : (Node.directory entries').Proper)
    (h : ∀ names, s.Selects [] entries names ↔ s'.Selects [] entries' names) :
    sorted (s.walk [] entries) = sorted (s'.walk [] entries') := by
  -- neither walk finds a file twice, so that it is enough that both find the same files
  apply sorted_eq_of_perm
  rw [List.perm_ext_iff_of_nodup (nodup_walk s hproper []) (nodup_walk s' hproper' [])]
  intro names
  rw [← List.nil_append names, mem_walk_iff hproper, mem_walk_iff hproper']
  exact h names

end Selection
end MarkupCatalog

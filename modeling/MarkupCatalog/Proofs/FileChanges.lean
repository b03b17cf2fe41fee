import MarkupCatalog.Proofs.FileTrees

/-!
# What changes when a document is written

Putting a node at a place changes nothing elsewhere, and paths that led somewhere still lead there.
When a file is written, the directories that are new are those above it that were missing, and the
one other place where something may have changed is the place to which the path of the file leads.
-/

namespace MarkupCatalog

/-! ## 1. Nodes at places -/

namespace Node

theorem named?_setNamed (name n : RawText) (new : Node) (entries : List (RawText × Node)) :
    named? n (setNamed name new entries) = if n = name then some new else named? n entries := by
  induction entries with
  | nil =>
    rw [setNamed, named?, named?]
    by_cases hn : n = name
    · rw [if_pos hn, if_pos hn.symm]
    · rw [if_neg hn, if_neg (Ne.symm hn)]
      rfl
  | cons e entries ih =>
    obtain ⟨m, node⟩ := e
    rw [setNamed]
    by_cases hm : m = name
    · subst hm
      rw [if_pos rfl, named?, named?]
      by_cases hn : n = m
      · rw [if_pos hn, if_pos hn.symm]
      · rw [if_neg hn, if_neg (Ne.symm hn), if_neg (Ne.symm hn)]
    · rw [if_neg hm, named?, named?, ih]
      by_cases hn : m = n
      · subst hn
        rw [if_pos rfl, if_pos rfl, if_neg hm]
      · rw [if_neg hn, if_neg hn]

theorem setNamed_setNamed (name : RawText) (old new : Node) (entries : List (RawText × Node)) :
    setNamed name new (setNamed name old entries) = setNamed name new entries := by
  induction entries with
  | nil => exact if_pos rfl
  | cons e entries ih =>
    obtain ⟨n, node⟩ := e
    rw [setNamed, setNamed]
    by_cases hn : n = name
    · rw [if_pos hn, if_pos hn, setNamed, if_pos hn]
    · rw [if_neg hn, if_neg hn, setNamed, if_neg hn, ih]

section Set

variable {entries : List (RawText × Node)} (new : Node)

theorem set_singleton (name : RawText) :
    (directory entries).set new [name] = directory (setNamed name new entries) := rfl

theorem set_cons {name : RawText} {child : Node} (hchild : named? name entries = some child)
    {names : List RawText} (hne : names ≠ []) :
    (directory entries).set new (name :: names) =
      directory (setNamed name (child.set new names) entries) := by
  cases names with
  | nil => exact absurd rfl hne
  | cons n names =>
    rw [set]
    simp only [hchild]

theorem set_directory (entries : List (RawText × Node)) (new : Node) {place : List RawText}
    (hplace : place ≠ []) : ∃ es, (directory entries).set new place = directory es := by
  cases place with
  | nil => exact absurd rfl hplace
  | cons name names =>
    cases names with
    | nil => exact ⟨_, rfl⟩
    | cons n names =>
      cases hchild : named? name entries with
      | none => exact ⟨entries, by simp [set, hchild]⟩
      | some child => exact ⟨_, set_cons new hchild (List.cons_ne_nil n names)⟩

variable {node : Node} {names : List RawText}

theorem at?_set_self (hdirectory : node.at? names = some (directory entries)) (name : RawText) :
    (node.set new (names ++ [name])).at? (names ++ [name]) = some new := by
  induction names generalizing node with
  | nil =>
    obtain rfl : node = directory entries := Option.some.inj hdirectory
    rw [List.nil_append, set_singleton, at?_directory, named?_setNamed, if_pos rfl]
    rfl
  | cons n names ih =>
    cases node with
    | directory above =>
      rw [at?_directory] at hdirectory
      obtain ⟨child, hchild, hdirectory⟩ := Option.bind_eq_some_iff.mp hdirectory
      rw [List.cons_append, set_cons new hchild (by simp), at?_directory, named?_setNamed,
        if_pos rfl, Option.bind_some, ih hdirectory]
    | _ => cases hdirectory

/-- Elsewhere, and above the place, the same stands as before. -/
theorem top_at?_set (hdirectory : node.at? names = some (directory entries)) {name : RawText}
    {place : List RawText} (hplace : ¬ names ++ [name] <+: place) :
    ((node.set new (names ++ [name])).at? place).map top = (node.at? place).map top := by
  -- along `names` both trees have directories, and beside it they are the same
  induction names generalizing node place with
  | nil =>
    obtain rfl : node = directory entries := Option.some.inj hdirectory
    cases place with
    | nil => rfl
    | cons n place =>
      have hn : n ≠ name := by
        rintro rfl
        exact hplace ⟨place, rfl⟩
      rw [List.nil_append, set_singleton, at?_directory, named?_setNamed, if_neg hn, at?_directory]
  | cons n names ih =>
    cases node with
    | directory above =>
      rw [at?_directory] at hdirectory
      obtain ⟨child, hchild, hdirectory⟩ := Option.bind_eq_some_iff.mp hdirectory
      rw [List.cons_append, set_cons new hchild (by simp)]
      cases place with
      | nil => rfl
      | cons m place =>
        rw [at?_directory, named?_setNamed, at?_directory]
        by_cases hm : m = n
        · have hinside : ¬ names ++ [name] <+: place :=
            fun h => hplace (List.cons_prefix_cons.mpr ⟨hm.symm, h⟩)
          rw [if_pos hm, hm, hchild]
          exact ih hdirectory hinside
        · rw [if_neg hm]
    | _ => cases hdirectory

end Set

/-- Nothing stands below the node. -/
def IsLeaf (node : Node) : Prop := ∀ names, names ≠ [] → node.at? names = none

theorem isLeaf_file (content : ByteArray) : (file content).IsLeaf := by
  intro names hne
  cases names with
  | nil => exact absurd rfl hne
  | cons name names => rfl

theorem isLeaf_directory : (directory []).IsLeaf := by
  intro names hne
  cases names with
  | nil => exact absurd rfl hne
  | cons name names => rfl

end Node

/-! ## 2. Places in a file system -/

namespace FileSystem

/-- The same stands at a place; what directories hold counts at the places below. -/
def SameAt (fs fs' : FileSystem) (place : Place) : Prop :=
  (fs'.at? place).map Node.top = (fs.at? place).map Node.top

theorem SameAt.kind_eq {fs fs' : FileSystem} {place : Place} (h : fs.SameAt fs' place) {node : Node}
    (hnode : fs.at? place = some node) :
    ∃ node', fs'.at? place = some node' ∧ node'.kind = node.kind := by
  unfold SameAt at h
  rw [hnode] at h
  obtain ⟨node', hnode', htop⟩ := Option.map_eq_some_iff.mp h
  refine ⟨node', hnode', ?_⟩
  rw [← Node.kind_top node', htop, Node.kind_top]

theorem SameAt.none {fs fs' : FileSystem} {place : Place} (h : fs.SameAt fs' place) :
    fs'.at? place = none ↔ fs.at? place = none := by
  unfold SameAt at h
  rw [← Option.map_eq_none_iff (f := Node.top), h, Option.map_eq_none_iff]

section Set

variable {fs : FileSystem} {dir : Place} {name : RawText} {entries : List (RawText × Node)}
  (hdir : fs.at? dir = some (.directory entries))

theorem at?_set_eq (fs : FileSystem) (dir : Place) (name : RawText) (new : Node) (place : Place) :
    (fs.set (dir ++ [name]) new).at? place =
      ((Node.directory fs.entries).set new (dir ++ [name])).at? place := by
  obtain ⟨es, hes⟩ := Node.set_directory fs.entries new (List.append_ne_nil_of_right_ne_nil dir
    (List.cons_ne_nil name []))
  unfold set at?
  rw [hes]

include hdir

theorem at?_set (name : RawText) (new : Node) :
    (fs.set (dir ++ [name]) new).at? (dir ++ [name]) = some new := by
  rw [at?_set_eq]
  exact Node.at?_set_self new hdir name

/-- A node below which nothing stands, in the place of one below which nothing stood. -/
theorem sameAt_set {new : Node} (hnew : new.IsLeaf)
    (hold : ∀ old, fs.at? (dir ++ [name]) = some old → old.IsLeaf) {place : Place}
    (hplace : place ≠ dir ++ [name]) : fs.SameAt (fs.set (dir ++ [name]) new) place := by
  unfold SameAt
  by_cases hbelow : dir ++ [name] <+: place
  · -- nothing stood there, and nothing stands there now
    obtain ⟨more, rfl⟩ := hbelow
    have hmore : more ≠ [] := by
      rintro rfl
      exact hplace (List.append_nil _)
    have hbefore : fs.at? (dir ++ [name] ++ more) = none := by
      refine (Node.at?_append _ _ _).trans ?_
      cases hfound : fs.at? (dir ++ [name]) with
      | none => exact congrArg (Option.bind · _) hfound
      | some old => exact (congrArg (Option.bind · _) hfound).trans (hold old hfound more hmore)
    have hafter : (fs.set (dir ++ [name]) new).at? (dir ++ [name] ++ more) = none := by
      rw [at?_set_eq, Node.at?_append, Node.at?_set_self new hdir name, Option.bind_some,
        hnew more hmore]
    rw [hbefore, hafter]
  · rw [at?_set_eq]
    exact Node.top_at?_set new hdir hbelow

end Set

/-! ## 3. Where paths lead -/

/-- The place to which a path leads, whether something stands there or not. -/
def Target.place : Target → Place
  | present place _ => place
  | absent dir name => dir ++ [name]

theorem directory_of_at?_append {fs : FileSystem} {place : Place} {names : List RawText}
    {node : Node} (hne : names ≠ []) (h : fs.at? (place ++ names) = some node) :
    ∃ entries, fs.at? place = some (.directory entries) := by
  have happend := (Node.at?_append (.directory fs.entries) place names).symm.trans h
  obtain ⟨above, habove, hbelow⟩ := Option.bind_eq_some_iff.mp happend
  cases names with
  | nil => exact absurd rfl hne
  | cons name names =>
    cases above with
    | directory entries => exact ⟨entries, habove⟩
    | _ => cases hbelow

theorem directory_of_at? {fs : FileSystem} {dir : Place} {name : RawText} {node : Node}
    (h : fs.at? (dir ++ [name]) = some node) :
    ∃ entries, fs.at? dir = some (.directory entries) :=
  directory_of_at?_append (List.cons_ne_nil name []) h

theorem at?_dropLast {fs : FileSystem} {place : Place} {node : Node}
    (h : fs.at? place = some node) :
    ∃ entries, fs.at? place.dropLast = some (.directory entries) := by
  rcases place.eq_nil_or_concat with rfl | ⟨dir, name, rfl⟩
  · exact ⟨fs.entries, rfl⟩
  · rw [List.concat_eq_append] at h ⊢
    rw [List.dropLast_concat]
    exact directory_of_at? h

/-- Where something is missing, its directory is there; and a link is not led to if links are to be
followed to the end. -/
def Target.IsIn (fs : FileSystem) (followLast : Bool) : Target → Prop
  | present _ node => followLast = true → ∀ target, node ≠ .link target
  | absent dir name =>
    (∃ entries, fs.at? dir = some (.directory entries)) ∧ fs.at? (dir ++ [name]) = none

theorem isIn_of_follow {fs : FileSystem} {followLast : Bool} {links : Nat} {start : Place}
    {components : List Path.Component} {t : Target}
    (hstart : ∃ entries, fs.at? start = some (.directory entries))
    (h : fs.follow followLast links start components = .ok t) : t.IsIn fs followLast := by
  -- every directory on the way is there, because the first one is
  replace h := follow_eq_ok_iff.mp h
  induction h with
  | nil hnode =>
    obtain ⟨entries, hstart⟩ := hstart
    rw [Option.some.inj (hnode.symm.trans hstart)]
    exact fun _ _ => Node.noConfusion
  | root _ ih => exact ih ⟨fs.entries, rfl⟩
  | here _ ih => exact ih hstart
  | up _ ih =>
    obtain ⟨entries, hstart⟩ := hstart
    exact ih (at?_dropLast hstart)
  | absent _ hmissing => exact ⟨hstart, hmissing⟩
  | file => exact fun _ _ => Node.noConfusion
  | directory _ hdirectory _ ih => exact ih ⟨_, hdirectory⟩
  | lastLink _ _ hlast =>
    intro hfollow
    rw [hfollow] at hlast
    exact absurd hlast.2 (by decide)
  | link _ _ _ _ _ ih => exact ih hstart

/-- Whether a path can be looked up at all depends on its text alone. -/
theorem locate_eq_follow_of_ok {fs : FileSystem} {followLast : Bool} {p : Path} {t : Target}
    (h : fs.locate followLast p = .ok t) (fs' : FileSystem) (followLast' : Bool) :
    fs'.locate followLast' p = fs'.follow followLast' maxLinks [] p.components := by
  unfold locate at h ⊢
  split at h
  next => cases h
  next hempty =>
    split at h
    next => cases h
    next hnul => rw [if_neg hempty, if_neg hnul]

theorem locate_eq_follow {fs : FileSystem} {followLast : Bool} {p : Path} {t : Target}
    (h : fs.locate followLast p = .ok t) (fs' : FileSystem) :
    fs'.locate followLast p = fs'.follow followLast maxLinks [] p.components :=
  locate_eq_follow_of_ok h fs' followLast

section Extends

variable {fs fs' : FileSystem}

/-- All but one place are as they were, and that one has not become something else. -/
theorem Extends.of_sameAt {place : Place} (hsame : ∀ other, other ≠ place → fs.SameAt fs' other)
    (hplace : ∀ node, fs.at? place = some node →
      ∃ node', fs'.at? place = some node' ∧ node'.kind = node.kind) : fs.Extends fs' := by
  intro other node hnode
  by_cases hother : other = place
  · subst hother
    exact hplace node hnode
  · exact (hsame other hother).kind_eq hnode

theorem Extends.of_file {place : Place} {content : ByteArray}
    (hsame : ∀ other, other ≠ place → fs.SameAt fs' other)
    (hplace : fs'.at? place = some (.file content))
    (hbefore : ∀ node, fs.at? place = some node → ∃ old, node = .file old) : fs.Extends fs' := by
  refine Extends.of_sameAt hsame fun node hnode => ?_
  obtain ⟨old, rfl⟩ := hbefore node hnode
  exact ⟨.file content, hplace, rfl⟩

variable (h : fs.Extends fs')

include h

/-- A path leads where it led before, and to what has been put there if nothing stood there. -/
theorem follow_extends {followLast : Bool} {links : Nat} {start : Place}
    {components : List Path.Component} {t : Target}
    (ht : fs.follow followLast links start components = .ok t) {node : Node}
    (hnode : fs'.at? t.place = some node)
    (hlink : fs.at? t.place = none → ∀ target, node ≠ .link target) :
    fs'.follow followLast links start components = .ok (.present t.place node) := by
  -- both follow the same components, because links and directories are where they were
  refine follow_eq_ok_iff.mpr ?_
  replace ht := follow_eq_ok_iff.mp ht
  induction ht with
  | nil => exact .nil hnode
  | root _ ih => exact .root (ih hnode hlink)
  | here _ ih => exact .here (ih hnode hlink)
  | up _ ih => exact .up (ih hnode hlink)
  | absent hshort hmissing =>
    -- what has been put there is a file or a directory, and nothing is left to follow
    cases node with
    | file content => exact .file hshort hnode
    | link target => exact absurd rfl (hlink hmissing target)
    | directory entries => exact .directory hshort hnode (.nil hnode)
  | file hshort hfile =>
    obtain ⟨content', hfile'⟩ := h.file hfile
    obtain rfl : Node.file content' = node := Option.some.inj (hfile'.symm.trans hnode)
    exact .file hshort hfile'
  | directory hshort hdirectory _ ih =>
    obtain ⟨entries', hdirectory'⟩ := h.directory hdirectory
    exact .directory hshort hdirectory' (ih hnode hlink)
  | lastLink hshort hlink' hlast =>
    have hfound := h.link hlink'
    obtain rfl := Option.some.inj (hfound.symm.trans hnode)
    exact .lastLink hshort hfound hlast
  | link hshort hlink' hlast htarget _ ih =>
    exact .link hshort (h.link hlink') hlast htarget (ih hnode hlink)

end Extends

/-! ## 4. New directories -/

/-- A directory that is new, and that is named by the components or by some at their beginning. -/
structure NewDirectory (fs fs' : FileSystem) (components : List Path.Component) (place : Place) :
    Prop where
  missing : fs.at? place = none
  named : ∃ above, above <+: components ∧
    ∃ entries, fs'.follow false maxLinks [] above = .ok (.present place (.directory entries))

/-- Nothing has changed, except that there are new directories on the way of the components. -/
def GrowsTo (fs fs' : FileSystem) (components : List Path.Component) : Prop :=
  ∀ place, fs.SameAt fs' place ∨ fs.NewDirectory fs' components place

variable {fs fs' fs'' : FileSystem} {components : List Path.Component}

theorem GrowsTo.refl (fs : FileSystem) (components : List Path.Component) :
    fs.GrowsTo fs components := fun _ => .inl rfl

theorem GrowsTo.mono {more : List Path.Component} (h : fs.GrowsTo fs' components)
    (hmore : components <+: more) : fs.GrowsTo fs' more := by
  intro place
  rcases h place with hsame | ⟨hmissing, above, habove, hleads⟩
  · exact .inl hsame
  · exact .inr ⟨hmissing, above, habove.trans hmore, hleads⟩

theorem GrowsTo.extends (h : fs.GrowsTo fs' components) : fs.Extends fs' := by
  intro place node hnode
  rcases h place with hsame | hnew
  · exact hsame.kind_eq hnode
  · rw [hnew.missing] at hnode
    cases hnode

/-- A new directory stays one. -/
theorem NewDirectory.extends {place : Place} (hnew : fs.NewDirectory fs' components place)
    (h : fs'.Extends fs'') : fs.NewDirectory fs'' components place := by
  obtain ⟨hmissing, above, habove, entries, hleads⟩ := hnew
  obtain ⟨entries', hentries'⟩ := h.directory (at?_of_follow hleads)
  exact ⟨hmissing, above, habove, entries', follow_extends h hleads hentries' (fun _ => nofun)⟩

theorem GrowsTo.trans (h : fs.GrowsTo fs' components) (h' : fs'.GrowsTo fs'' components) :
    fs.GrowsTo fs'' components := by
  -- what the first step creates is kept by the second, and what the second creates was missing
  intro place
  rcases h place with hsame | hnew
  · rcases h' place with hsame' | hnew'
    · exact .inl (hsame'.trans hsame)
    · exact .inr ⟨hsame.none.mp hnew'.missing, hnew'.named⟩
  · exact .inr (hnew.extends h'.extends)

theorem makeDirectory_error {e : FileFault} (h : fs.makeDirectory components = (fs', .error e)) :
    fs' = fs := by
  unfold makeDirectory at h
  split at h
  next => exact (Prod.mk.inj h).1.symm
  next =>
    split at h
    next => exact (Prod.mk.inj h).1.symm
    next => exact (Prod.mk.inj h).1.symm
    next => cases (Prod.mk.inj h).2

/-- An empty directory is put where nothing stood, and the path leads to it from then on. -/
theorem makeDirectory_ok (h : fs.makeDirectory components = (fs', .ok ())) :
    ∃ place, fs.at? place = none ∧
      fs'.follow false maxLinks [] components = .ok (.present place (.directory [])) ∧
      ∀ other, other ≠ place → fs.SameAt fs' other := by
  unfold makeDirectory at h
  split at h
  next => cases (Prod.mk.inj h).2
  next =>
    split at h
    next => cases (Prod.mk.inj h).2
    next => cases (Prod.mk.inj h).2
    next dir name ht =>
      obtain rfl := (Prod.mk.inj h).1
      obtain ⟨⟨entries, hdir⟩, hmissing⟩ := isIn_of_follow ⟨fs.entries, rfl⟩ ht
      have hsame : ∀ other, other ≠ dir ++ [name] →
          fs.SameAt (fs.set (dir ++ [name]) (.directory [])) other := by
        intro other hother
        refine sameAt_set hdir Node.isLeaf_directory ?_ hother
        rw [hmissing]
        nofun
      have hextends : fs.Extends (fs.set (dir ++ [name]) (.directory [])) := by
        apply Extends.of_sameAt hsame
        rw [hmissing]
        nofun
      have hset := at?_set hdir name (.directory [])
      exact ⟨dir ++ [name], hmissing, follow_extends hextends ht hset fun _ => nofun, hsame⟩

theorem growsTo_makeDirectory (fs : FileSystem) (components : List Path.Component) :
    fs.GrowsTo (fs.makeDirectory components).1 components := by
  cases hmake : fs.makeDirectory components with
  | mk fs' r =>
    cases r with
    | error e =>
      obtain rfl := makeDirectory_error hmake
      exact .refl fs' components
    | ok _ =>
      obtain ⟨place, hmissing, hleads, hsame⟩ := makeDirectory_ok hmake
      intro other
      by_cases hother : other = place
      · rw [hother]
        exact .inr ⟨hmissing, components, List.prefix_refl _, [], hleads⟩
      · exact .inl (hsame other hother)

theorem growsTo_ensureDirectory (fs : FileSystem) (components : List Path.Component) :
    fs.GrowsTo (fs.ensureDirectory components).1 components := by
  have hmake := growsTo_makeDirectory fs components
  unfold ensureDirectory
  split
  next hfs => rwa [hfs] at hmake
  next hfs => rwa [hfs] at hmake

/-- The directories that are created lie on the way to the last one. -/
theorem growsTo_ensureDirectories (fs : FileSystem) (components : List Path.Component) :
    fs.GrowsTo (fs.ensureDirectories components).1 components.reverse := by
  induction components generalizing fs with
  | nil => exact .refl fs _
  | cons c above ih =>
    have hmake := growsTo_makeDirectory fs (c :: above).reverse
    have hbegins : above.reverse <+: (c :: above).reverse := by
      rw [List.reverse_cons]
      exact List.prefix_append _ _
    unfold ensureDirectories
    split
    -- only if something is missing above are the directories there created first
    next fs' hfs' =>
      rw [hfs'] at hmake
      have habove := hmake.trans ((ih fs').mono hbegins)
      split
      next fs'' hfs'' =>
        rw [hfs''] at habove
        exact habove.trans (growsTo_ensureDirectory fs'' _)
      next fs'' e hfs'' => rwa [hfs''] at habove
    next fs' e _ hfs' => rwa [hfs'] at hmake
    next fs' hfs' => rwa [hfs'] at hmake

/-! ## 5. Writing -/

/-- A file with the content stands at the place to which the path leads, where a file stood before
or nothing. -/
structure Written (fs fs' : FileSystem) (p : Path) (content : ByteArray) (place : Place) :
    Prop where
  leads : fs'.locate true p = .ok (.present place (.file content))
  before : ∀ node, fs.at? place = some node → ∃ old, node = .file old

theorem written_set {p : Path} {t : Target} (ht : fs.locate true p = .ok t) {dir : Place}
    {name : RawText} (hplace : t.place = dir ++ [name]) {entries : List (RawText × Node)}
    (hdir : fs.at? dir = some (.directory entries))
    (hbefore : ∀ node, fs.at? (dir ++ [name]) = some node → ∃ old, node = .file old)
    (content : ByteArray) :
    fs.Written (fs.set (dir ++ [name]) (.file content)) p content (dir ++ [name]) ∧
      ∀ other, other ≠ dir ++ [name] →
        fs.SameAt (fs.set (dir ++ [name]) (.file content)) other := by
  have hset := at?_set hdir name (.file content)
  have hsame : ∀ other, other ≠ dir ++ [name] →
      fs.SameAt (fs.set (dir ++ [name]) (.file content)) other := by
    intro other hother
    refine sameAt_set hdir (Node.isLeaf_file content) (fun node hnode => ?_) hother
    obtain ⟨old, rfl⟩ := hbefore node hnode
    exact Node.isLeaf_file old
  have hextends := Extends.of_file hsame hset hbefore
  refine ⟨⟨?_, hbefore⟩, hsame⟩
  have hfollow := (locate_eq_follow ht fs).symm.trans ht
  have hfound : (fs.set (dir ++ [name]) (.file content)).at? t.place = some (.file content) := by
    rwa [hplace]
  have hleads := follow_extends hextends hfollow hfound (fun _ => nofun)
  rw [locate_eq_follow ht, hleads, hplace]

theorem write_error {p : Path} {content : ByteArray} {e : FileFault}
    (h : fs.write p content = (fs', .error e)) : fs' = fs := by
  unfold write at h
  split at h
  next => split at h <;> exact (Prod.mk.inj h).1.symm
  next =>
    split at h
    next => exact (Prod.mk.inj h).1.symm
    next => exact (Prod.mk.inj h).1.symm
    next =>
      split at h
      next => exact (Prod.mk.inj h).1.symm
      next => cases (Prod.mk.inj h).2
    next =>
      split at h
      next => exact (Prod.mk.inj h).1.symm
      next => cases (Prod.mk.inj h).2

/-- What a file is written to is no directory, and the path does not mean one. -/
theorem write_eq_ok {p : Path} {content : ByteArray} (h : fs.write p content = (fs', .ok ())) :
    p.endsAsDirectory = false ∧ ∃ t, fs.locate true p = .ok t ∧
      (∀ place entries, t ≠ .present place (.directory entries)) ∧
      fs' = fs.set t.place (.file content) := by
  unfold write at h
  split at h
  next => split at h <;> cases (Prod.mk.inj h).2
  next hslash =>
    have hend (hdot : ¬ p.endsInDot = true) : p.endsAsDirectory = false := by
      rw [Bool.not_eq_true] at hdot
      rw [hdot, Bool.not_false, Bool.and_true, Bool.not_eq_true] at hslash
      unfold Path.endsAsDirectory
      rw [hslash, hdot]
      rfl
    split at h
    next => cases (Prod.mk.inj h).2
    next => cases (Prod.mk.inj h).2
    next place node hnotDirectory ht =>
      split at h
      next => cases (Prod.mk.inj h).2
      next hdot =>
        refine ⟨hend hdot, _, ht, ?_, (Prod.mk.inj h).1.symm⟩
        rintro _ entries ⟨⟩
        exact hnotDirectory entries rfl
    next dir name ht =>
      split at h
      next => cases (Prod.mk.inj h).2
      next hdot => exact ⟨hend hdot, _, ht, fun _ _ => nofun, (Prod.mk.inj h).1.symm⟩

theorem write_ok {p : Path} {content : ByteArray} (h : fs.write p content = (fs', .ok ())) :
    ∃ place, fs.Written fs' p content place ∧ ∀ other, other ≠ place → fs.SameAt fs' other := by
  obtain ⟨-, t, ht, hnotDirectory, rfl⟩ := write_eq_ok h
  have hin := isIn_of_follow ⟨fs.entries, rfl⟩ ((locate_eq_follow ht fs).symm.trans ht)
  cases t with
  | present place node =>
    have hnode := at?_of_locate ht
    have hfile : ∃ old, node = .file old := by
      cases node with
      | file old => exact ⟨old, rfl⟩
      | link target => exact absurd rfl (hin rfl target)
      | directory entries => exact absurd rfl (hnotDirectory place entries)
    obtain ⟨old, rfl⟩ := hfile
    -- the top is a directory, so that the file stands in one
    rcases place.eq_nil_or_concat with rfl | ⟨dir, name, rfl⟩
    · cases hnode
    · rw [List.concat_eq_append] at hnode ht ⊢
      obtain ⟨entries, hdir⟩ := directory_of_at? hnode
      refine ⟨_, written_set ht rfl hdir (fun node hnode' => ?_) content⟩
      exact ⟨old, Option.some.inj (hnode'.symm.trans hnode)⟩
  | absent dir name =>
    obtain ⟨⟨entries, hdir⟩, hmissing⟩ := hin
    refine ⟨_, written_set ht rfl hdir ?_ content⟩
    rw [hmissing]
    nofun

/-- Nothing has changed, except that there are new directories on the way to a path and, if it has
been written, the file to which the path leads. -/
structure OnlyWrites (fs fs' : FileSystem) (p : Path) (content : ByteArray) (done : Prop) :
    Prop where
  elsewhere : ∀ place, fs.SameAt fs' place ∨ fs.NewDirectory fs' p.components.dropLast place ∨
    done ∧ fs.Written fs' p content place
  written : done → ∃ place, fs.Written fs' p content place

theorem OnlyWrites.congr {p : Path} {content : ByteArray} {done done' : Prop}
    (h : fs.OnlyWrites fs' p content done) (hdone : done ↔ done') :
    fs.OnlyWrites fs' p content done' where
  elsewhere place := (h.elsewhere place).imp id (Or.imp id (And.imp hdone.mp id))
  written hwritten := h.written (hdone.mpr hwritten)

theorem onlyWrites_writeWithDirectories (fs : FileSystem) (p : Path) (content : ByteArray) :
    fs.OnlyWrites (fs.writeWithDirectories p content).1 p content
      ((fs.writeWithDirectories p content).2 = .ok ()) := by
  -- first there are new directories, and then the file is put beside or among them
  have hgrows := growsTo_ensureDirectories fs p.components.reverse.tail
  rw [List.tail_reverse, List.reverse_reverse] at hgrows
  unfold writeWithDirectories
  rw [List.tail_reverse]
  split
  next fs' hfs' =>
    rw [hfs'] at hgrows
    cases hwrite : fs'.write p content with
    | mk fs'' r =>
      cases r with
      | error e =>
        obtain rfl := write_error hwrite
        exact ⟨fun place => (hgrows place).imp id .inl, nofun⟩
      | ok _ =>
        obtain ⟨place, hwritten, hsame⟩ := write_ok hwrite
        have hdone : fs.Written fs'' p content place := by
          refine ⟨hwritten.leads, fun node hnode => ?_⟩
          obtain ⟨node', hnode', hkind⟩ := hgrows.extends place node hnode
          obtain ⟨old, rfl⟩ := hwritten.before node' hnode'
          cases node with
          | file content => exact ⟨content, rfl⟩
          | _ => cases hkind
        have hextends := Extends.of_file hsame (at?_of_locate hwritten.leads) hwritten.before
        refine ⟨fun other => ?_, fun _ => ⟨place, hdone⟩⟩
        by_cases hother : other = place
        · exact .inr (.inr ⟨rfl, hother ▸ hdone⟩)
        · rcases hgrows other with hother' | hnew
          · exact .inl ((hsame other hother).trans hother')
          · exact .inr (.inl (hnew.extends hextends))
  next fs' e hfs' =>
    rw [hfs'] at hgrows
    exact ⟨fun place => (hgrows place).imp id .inl, nofun⟩

end FileSystem
end MarkupCatalog

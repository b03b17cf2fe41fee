import MarkupCatalog.Proofs.Reports
import MarkupCatalog.Proofs.RunEffects
import MarkupCatalog.Proofs.WrittenFiles

/-!
# Source files that stay

Where a document is written under a name that no source file has, the source files stay what they
were.  The same files are then selected as before, and each of them reads as before.
-/

namespace MarkupCatalog

/-! ## 1. Below a directory -/

namespace FileSystem

/-- What comes behind a path to a directory is followed from that directory. -/
theorem follow_append {fs : FileSystem} {links : Nat} {start place : Place}
    {components : List Path.Component} {entries : List (RawText × Node)}
    (h : fs.follow true links start components = .ok (.present place (.directory entries))) :
    ∃ links', ∀ followLast more, more ≠ [] →
      fs.follow followLast links start (components ++ more) =
        fs.follow followLast links' place more := by
  replace h := follow_eq_ok_iff.mp h
  generalize ht : Target.present place (.directory entries) = t at h
  induction h with
  | @nil links =>
    cases ht
    exact ⟨links, fun _ _ _ => rfl⟩
  | absent | file | lastLink => cases ht
  | root _ ih =>
    obtain ⟨links', hmore⟩ := ih ht
    exact ⟨links', fun followLast more hne => follow_root.trans (hmore followLast more hne)⟩
  | here _ ih =>
    obtain ⟨links', hmore⟩ := ih ht
    exact ⟨links', fun followLast more hne => follow_here.trans (hmore followLast more hne)⟩
  | up _ ih =>
    obtain ⟨links', hmore⟩ := ih ht
    exact ⟨links', fun followLast more hne => follow_up.trans (hmore followLast more hne)⟩
  | directory hshort hdirectory _ ih =>
    obtain ⟨links', hmore⟩ := ih ht
    refine ⟨links', fun followLast more hne => ?_⟩
    rw [List.cons_append, follow_name_directory hshort hdirectory]
    exact hmore followLast more hne
  | @link _ _ _ _ r _ hshort hlink _ htarget _ ih =>
    obtain ⟨links', hmore⟩ := ih ht
    refine ⟨links', fun followLast more hne => ?_⟩
    -- the link is not the last component, so that it is followed
    have hbehind : ¬ (r ++ more = [] ∧ (!followLast) = true) :=
      fun hnone => hne (List.append_eq_nil_iff.mp hnone.1).2
    rw [List.cons_append, follow_name_link hshort hlink hbehind htarget, ← List.append_assoc]
    exact hmore followLast more hne

theorem at?_below {fs : FileSystem} {place : Place} {entries : List (RawText × Node)}
    (h : fs.at? place = some (.directory entries)) (names : List RawText) :
    fs.at? (place ++ names) = (Node.directory entries).at? names :=
  (Node.at?_append (.directory fs.entries) place names).trans (congrArg (Option.bind · _) h)

/-- Names lead to the file below a directory, unless one of them is too long. -/
theorem follow_names {fs : FileSystem} {place : Place} {names : List RawText}
    {content : ByteArray} (hne : names ≠ [])
    (h : fs.at? (place ++ names) = some (.file content)) (followLast : Bool) (links : Nat) :
    fs.follow followLast links place (names.map .name) =
      if names.any (fun name => name.bytes.length > maxNameSize) then .error .nameTooLong
      else .ok (.present (place ++ names) (.file content)) := by
  induction names generalizing place with
  | nil => exact absurd rfl hne
  | cons name names ih =>
    have happend : place ++ name :: names = place ++ [name] ++ names := by simp
    rw [List.map_cons, List.any_cons]
    by_cases hlong : name.bytes.length > maxNameSize
    · rw [follow_name_long hlong, decide_eq_true hlong, Bool.true_or, if_pos rfl]
    · rw [happend] at h ⊢
      rw [decide_eq_false hlong, Bool.false_or]
      by_cases hnames : names = []
      · subst hnames
        rw [List.append_nil] at h ⊢
        exact follow_name_file hlong h
      · obtain ⟨entries, hentries⟩ := directory_of_at?_append hnames h
        rw [follow_name_directory hlong hentries]
        exact ih hnames h

theorem bytes_ne_nil_of_locate {fs : FileSystem} {followLast : Bool} {p : Path} {t : Target}
    (h : fs.locate followLast p = .ok t) : p.raw.bytes ≠ [] := by
  intro hempty
  unfold locate at h
  rw [if_pos hempty] at h
  cases h

/-- A file below a directory is found in two file systems alike. -/
theorem locate_pathOf {fs fs' : FileSystem} {root : Path} {place : Place}
    {entries entries' : List (RawText × Node)}
    (hroot : fs.locate true root = .ok (.present place (.directory entries)))
    (hroot' : fs'.locate true root = .ok (.present place (.directory entries')))
    {names : List RawText} (hne : names ≠ []) (hnames : ∀ name ∈ names, IsEntryName name)
    {content : ByteArray} (h : fs.at? (place ++ names) = some (.file content))
    (h' : fs'.at? (place ++ names) = some (.file content)) :
    fs'.locate true (Selection.pathOf root names) =
      fs.locate true (Selection.pathOf root names) := by
  have hcomponents := Selection.components_pathOf (bytes_ne_nil_of_locate hroot) hnames
  have hnamed : names.map Path.Component.name ≠ [] := by simpa using hne
  obtain ⟨links, hmore⟩ := follow_append ((locate_eq_follow hroot fs).symm.trans hroot)
  obtain ⟨links', hmore'⟩ := follow_append ((locate_eq_follow hroot' fs').symm.trans hroot')
  unfold locate
  split
  next => rfl
  next =>
    split
    next => rfl
    next =>
      rw [hcomponents, hmore true _ hnamed, hmore' true _ hnamed, follow_names hne h,
        follow_names hne h']

theorem readText_of_locate {fs fs' : FileSystem} {p : Path}
    (h : fs'.locate true p = fs.locate true p) : fs'.readText p = fs.readText p := by
  unfold readText FileSystem.read node? target
  rw [Bool.true_or, h]

theorem locate_of_directory? {fs : FileSystem} {p : Path} {entries : List (RawText × Node)}
    (h : fs.directory? p = some entries) :
    ∃ place, fs.locate true p = .ok (.present place (.directory entries)) := by
  unfold directory? node? target at h
  rw [Bool.true_or] at h
  cases hlocate : fs.locate true p with
  | error e =>
    rw [hlocate] at h
    cases h
  | ok t =>
    rw [hlocate] at h
    cases t with
    | absent dir name => cases h
    | present place node =>
      cases node with
      | directory entries' =>
        obtain rfl : entries' = entries := Option.some.inj h
        exact ⟨place, rfl⟩
      | link target => cases h
      | file content =>
        dsimp only at h
        by_cases hend : p.endsAsDirectory = true
        · rw [if_pos hend] at h
          cases h
        · rw [if_neg hend] at h
          cases h

theorem directory?_of_locate {fs : FileSystem} {p : Path} {place : Place}
    {entries : List (RawText × Node)}
    (h : fs.locate true p = .ok (.present place (.directory entries))) :
    fs.directory? p = some entries := by
  unfold directory? node? target
  rw [Bool.true_or, h]

/-- What a path leads to is still there, and the path still leads to it. -/
theorem Extends.locate {fs fs' : FileSystem} (h : fs.Extends fs') {p : Path} {place : Place}
    {node : Node} (hlocate : fs.locate true p = .ok (.present place node)) :
    ∃ node', fs'.locate true p = .ok (.present place node') ∧ node'.kind = node.kind := by
  obtain ⟨node', hnode', hkind⟩ := h place node (at?_of_locate hlocate)
  refine ⟨node', ?_, hkind⟩
  have hfollow := (locate_eq_follow hlocate fs).symm.trans hlocate
  rw [locate_eq_follow hlocate]
  refine follow_extends h hfollow hnode' fun hmissing => ?_
  cases (at?_of_locate hlocate).symm.trans hmissing

end FileSystem

/-! ## 2. Source files -/

/-- The same source files stand at the same places. -/
def FileSystem.SameSources (fs fs' : FileSystem) : Prop :=
  ∀ dir name, isSourceName name = true → ∀ content,
    fs'.at? (dir ++ [name]) = some (.file content) ↔ fs.at? (dir ++ [name]) = some (.file content)

theorem FileSystem.SameAt.file_iff {fs fs' : FileSystem} {place : FileSystem.Place}
    (h : fs.SameAt fs' place) (content : ByteArray) :
    fs'.at? place = some (.file content) ↔ fs.at? place = some (.file content) := by
  have htop (node? : Option Node) :
      node? = some (.file content) ↔ node?.map Node.top = some (.file content) := by
    cases node? with
    | none => exact Iff.rfl
    | some node => cases node <;> simp [Node.top]
  rw [htop, htop (fs.at? place), h]

/-- A document that is written under another name leaves the source files as they were. -/
theorem FileSystem.sameSources_of_written {fs fs' : FileSystem} {p : Path} {content : ByteArray}
    (hwrite : fs.writeWithDirectories p content = (fs', .ok ())) (hlink : ¬ fs'.IsLink p)
    (hdialect : (Dialect.ofPath p).isOk = false) : fs.SameSources fs' := by
  have honly := onlyWrites_writeWithDirectories fs p content
  rw [hwrite] at honly
  intro dir name hname content'
  rcases honly.elsewhere (dir ++ [name]) with hsame | hnew | ⟨-, hwritten⟩
  · exact hsame.file_iff content'
  · -- a directory that is new is no file, and nothing stood in its place
    obtain ⟨above, -, entries, hleads⟩ := hnew.named
    rw [hnew.missing, at?_of_follow hleads]
    exact ⟨nofun, nofun⟩
  · obtain ⟨dir', name', hfile, hplace⟩ := fileName?_of_locate hwritten.leads hlink
    obtain ⟨-, hlast⟩ := List.append_inj' hplace rfl
    obtain rfl : name = name' := List.head_eq_of_cons_eq hlast
    unfold Dialect.ofPath at hdialect
    unfold isSourceName at hname
    rw [hfile] at hdialect
    rw [hdialect, Bool.false_and] at hname
    cases hname

namespace Selection

/-- Selected files have the names of source files. -/
theorem Selects.last {s : Selection} {above : List RawText} {entries : List (RawText × Node)}
    {names : List RawText} (h : s.Selects above entries names) :
    ∃ dir name, names = dir ++ [name] ∧ isSourceName name = true := by
  have hsource := h.isSource
  rcases names.eq_nil_or_concat with rfl | ⟨dir, name, rfl⟩
  · cases hsource
  · rw [List.concat_eq_append, List.getLast?_concat, Option.any_some] at hsource
    exact ⟨dir, name, List.concat_eq_append, hsource⟩

theorem Selects.of_sources {s : Selection} {above : List RawText}
    {entries entries' : List (RawText × Node)} {names : List RawText}
    (hsources : ∀ dir name, isSourceName name = true → ∀ content,
      (Node.directory entries).at? (dir ++ [name]) = some (.file content) →
        (Node.directory entries').at? (dir ++ [name]) = some (.file content))
    (h : s.Selects above entries names) : s.Selects above entries' names := by
  obtain ⟨content, hfile⟩ := h.isFile
  obtain ⟨dir, name, rfl, hname⟩ := h.last
  exact { h with isFile := ⟨content, hsources dir name hname content hfile⟩ }

end Selection

/-- The same files are selected, and each is read as before. -/
theorem FileSystem.select_of_sameSources {fs fs' : FileSystem} (hproper : fs.Proper)
    (hproper' : fs'.Proper) (hextends : fs.Extends fs') (hsources : fs.SameSources fs')
    {base : Path} {pattern : String} {excludes : List String} {files : List Path}
    (h : fs.select base pattern excludes = .ok files) :
    fs'.select base pattern excludes = .ok files ∧
      ∀ p ∈ files, fs'.readText p = fs.readText p := by
  obtain ⟨entries, s, hentries, hs, rfl⟩ := select_eq_ok_iff.mp h
  -- the root still leads to the same place, and there still stands a directory
  obtain ⟨place, hroot⟩ := locate_of_directory? hentries
  obtain ⟨node', hroot', hkind⟩ := hextends.locate hroot
  obtain ⟨entries', rfl⟩ : ∃ entries', node' = .directory entries' := by
    cases node' with
    | directory entries' => exact ⟨entries', rfl⟩
    | _ => cases hkind
  have hentries' := directory?_of_locate hroot'
  have hbelow := at?_below (at?_of_locate hroot)
  have hbelow' := at?_below (at?_of_locate hroot')
  have hfile (dir : List RawText) (name : RawText) (hname : isSourceName name = true)
      (content : ByteArray) :
      (Node.directory entries').at? (dir ++ [name]) = some (.file content) ↔
        (Node.directory entries).at? (dir ++ [name]) = some (.file content) := by
    rw [← hbelow, ← hbelow', ← List.append_assoc]
    exact hsources (place ++ dir) name hname content
  have hentriesProper := Proper.directory? hproper hentries
  have hentriesProper' : (Node.directory entries').Proper := Proper.directory? hproper' hentries'
  -- of the conditions on a selected file, only the first one is about the tree
  have hselects (names : List RawText) :
      s.Selects [] entries names ↔ s.Selects [] entries' names :=
    ⟨.of_sources fun dir name hname content => (hfile dir name hname content).mpr,
      .of_sources fun dir name hname content => (hfile dir name hname content).mp⟩
  constructor
  · have hwalk := Selection.sorted_walk_congr s s hentriesProper hentriesProper' hselects
    exact select_eq_ok_iff.mpr ⟨entries', s, hentries', hs, by rw [hwalk]⟩
  · intro p hp
    obtain ⟨names, hnames, rfl⟩ := List.mem_map.mp hp
    rw [(Selection.sorted_perm _).mem_iff, ← List.nil_append names,
      Selection.mem_walk_iff hentriesProper] at hnames
    obtain ⟨content, hcontent⟩ := hnames.isFile
    obtain ⟨dir, name, hlast, hname⟩ := hnames.last
    have hcontent' : (Node.directory entries').at? names = some (.file content) := by
      rw [hlast] at hcontent ⊢
      exact (hfile dir name hname content).mpr hcontent
    have hne : names ≠ [] := by
      rw [hlast]
      simp
    rw [← hbelow] at hcontent
    rw [← hbelow'] at hcontent'
    exact readText_of_locate
      (locate_pathOf hroot hroot' hne (hnames.names hentriesProper) hcontent hcontent')

theorem Report.push_congr {fs fs' : FileSystem} {p : Path}
    (h : fs'.readText p = fs.readText p) (f : Formatter) (r : Report) :
    push fs' f r p = push fs f r p := by
  unfold push sizeOf Catalog.ofFile
  rw [h]

theorem Report.ofFiles_congr {fs fs' : FileSystem} {files : List Path}
    (h : ∀ p ∈ files, fs'.readText p = fs.readText p) (f : Formatter) :
    ofFiles fs' f files = ofFiles fs f files :=
  List.foldl_ext _ _ empty fun r p hp => push_congr (h p hp) f r

end MarkupCatalog

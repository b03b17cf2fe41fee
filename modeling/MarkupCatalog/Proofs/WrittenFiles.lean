import Mathlib.Data.List.Nodup
import MarkupCatalog.Proofs.FileChanges
import MarkupCatalog.Proofs.Texts

/-!
# Files that have been written

Where a file has been written, it is read back, and writing it once more leaves the file system as
it is.  A file system that was proper is so afterwards.
-/

namespace MarkupCatalog

/-! ## 1. Reading back -/

namespace FileSystem

variable {fs fs' : FileSystem} {p : Path} {content : ByteArray}

theorem writeWithDirectories_eq_ok_iff : fs.writeWithDirectories p content = (fs', .ok ()) ↔
    ∃ fs₁, fs.ensureDirectories p.components.reverse.tail = (fs₁, .ok ()) ∧
      fs₁.write p content = (fs', .ok ()) := by
  unfold writeWithDirectories
  split
  next fs₁ hfs₁ =>
    rw [hfs₁]
    constructor
    · exact fun h => ⟨fs₁, rfl, h⟩
    · rintro ⟨_, hfs₂, h⟩
      cases hfs₂
      exact h
  next fs₁ e hfs₁ =>
    rw [hfs₁]
    constructor
    · intro h
      cases (Prod.mk.inj h).2
    · rintro ⟨_, hfs₂, -⟩
      cases (Prod.mk.inj hfs₂).2

theorem target_eq_locate (hend : p.endsAsDirectory = false) (followLast : Bool) :
    fs.target followLast p = fs.locate followLast p := by
  unfold target
  rw [hend, Bool.or_false]
  split
  next h =>
    rw [h]
    rfl
  next => rfl

theorem read_of_target {place : Place}
    (h : fs.target true p = .ok (.present place (.file content))) : fs.read p = .ok content := by
  unfold read node?
  rw [h]

theorem readText_of_read {text : String} (h : fs.read p = .ok text.toUTF8) :
    fs.readText p = .ok text := by
  have htext : String.fromUTF8? text.toUTF8 = some text := dif_pos text.isValidUTF8
  unfold readText
  simp only [h, htext]

theorem isFile_iff : fs.isFile p = true ↔ ∃ content, fs.read p = .ok content := by
  unfold isFile FileSystem.read
  cases fs.node? p with
  | error e => simp
  | ok node => cases node <;> simp

theorem isFile_of_readText {text : String} (h : fs.readText p = .ok text) : fs.isFile p = true := by
  cases hread : fs.read p with
  | error e =>
    rw [readText, hread] at h
    cases h
  | ok content => exact isFile_iff.mpr ⟨content, hread⟩

theorem read_writeWithDirectories (h : fs.writeWithDirectories p content = (fs', .ok ())) :
    fs'.read p = .ok content := by
  obtain ⟨fs₁, -, hwrite⟩ := writeWithDirectories_eq_ok_iff.mp h
  obtain ⟨place, hwritten, -⟩ := write_ok hwrite
  apply read_of_target
  rw [target_eq_locate (write_eq_ok hwrite).1]
  exact hwritten.leads

/-! ## 2. The last name -/

/-- Unless a path ends at a link, it does not matter whether links are followed at its end. -/
theorem follow_true_eq (fs : FileSystem) (links : Nat) (start : Place)
    (components : List Path.Component) :
    (∃ place target,
      fs.follow false links start components = .ok (.present place (.link target))) ∨
    fs.follow true links start components = fs.follow false links start components := by
  have hfollowed {r : List Path.Component} : ¬ (r = [] ∧ (!true) = true) :=
    fun h => absurd h.2 (by decide)
  induction links, start, components using follow.induct fs false with
  | case1 links start found hfound =>
    rw [follow_nil hfound, follow_nil hfound]
    exact .inr rfl
  | case2 links start hfound =>
    rw [follow_nil_missing hfound, follow_nil_missing hfound]
    exact .inr rfl
  | case3 links start r ih =>
    rw [follow_root, follow_root]
    exact ih
  | case4 links start r ih =>
    rw [follow_here, follow_here]
    exact ih
  | case5 links start r ih =>
    rw [follow_up, follow_up]
    exact ih
  | case6 links start n r hlong =>
    rw [follow_name_long hlong, follow_name_long hlong]
    exact .inr rfl
  | case7 links start n hshort hfound =>
    rw [follow_name_absent hshort hfound, follow_name_absent hshort hfound]
    exact .inr rfl
  | case8 links start n hshort c r hfound =>
    rw [follow_name_missing hshort hfound, follow_name_missing hshort hfound]
    exact .inr rfl
  | case9 links start n r hshort target hlink hlast =>
    rw [follow_name_lastLink hshort hlink hlast]
    exact .inl ⟨_, _, rfl⟩
  | case10 start n r hshort target hlink hlast =>
    rw [follow_name_manyLinks hshort hlink hlast, follow_name_manyLinks hshort hlink hfollowed]
    exact .inr rfl
  | case11 start n r hshort target hlink hlast links htarget =>
    rw [follow_name_emptyLink hshort hlink hlast htarget,
      follow_name_emptyLink hshort hlink hfollowed htarget]
    exact .inr rfl
  | case12 start n r hshort target hlink hlast links htarget ih =>
    rw [follow_name_link hshort hlink hlast htarget,
      follow_name_link hshort hlink hfollowed htarget]
    exact ih
  | case13 links start n hshort content hfile =>
    rw [follow_name_file hshort hfile, follow_name_file hshort hfile]
    exact .inr rfl
  | case14 links start n hshort content c r hfile =>
    rw [follow_name_belowFile hshort hfile, follow_name_belowFile hshort hfile]
    exact .inr rfl
  | case15 links start n hshort entries r hdirectory ih =>
    rw [follow_name_directory hshort hdirectory, follow_name_directory hshort hdirectory]
    exact ih

/-- A path that leads to no directory ends in the name of what it leads to. -/
theorem last_of_follow {fs : FileSystem} {links : Nat} {start : Place}
    {components : List Path.Component} {t : Target}
    (hstart : ∃ entries, fs.at? start = some (.directory entries))
    (h : fs.follow false links start components = .ok t)
    (hnotDirectory : ∀ place entries, t ≠ .present place (.directory entries)) :
    ∃ dir name, components.getLast? = some (.name name) ∧ t.place = dir ++ [name] := by
  have hcons {c : Path.Component} {r : List Path.Component} {t : Target}
      (h : ∃ dir name, r.getLast? = some (.name name) ∧ t.place = dir ++ [name]) :
      ∃ dir name, (c :: r).getLast? = some (.name name) ∧ t.place = dir ++ [name] := by
    obtain ⟨dir, name, hlast, hplace⟩ := h
    cases r with
    | nil => cases hlast
    | cons d r => exact ⟨dir, name, hlast, hplace⟩
  replace h := follow_eq_ok_iff.mp h
  induction h with
  | nil hnode =>
    obtain ⟨entries, hstart⟩ := hstart
    exact absurd (by rw [Option.some.inj (hnode.symm.trans hstart)]) (hnotDirectory _ entries)
  | root _ ih => exact hcons (ih ⟨fs.entries, rfl⟩ hnotDirectory)
  | here _ ih => exact hcons (ih hstart hnotDirectory)
  | up _ ih =>
    obtain ⟨entries, hstart⟩ := hstart
    exact hcons (ih (at?_dropLast hstart) hnotDirectory)
  | @absent links start name | @file links start name => exact ⟨start, name, rfl, rfl⟩
  | directory _ hdirectory _ ih => exact hcons (ih ⟨_, hdirectory⟩ hnotDirectory)
  | @lastLink links start name _ _ _ _ hlast =>
    rw [hlast.1]
    exact ⟨start, name, rfl, rfl⟩
  | @link _ _ _ _ r _ _ _ hlast _ _ ih =>
    -- something is left behind the link
    have hr : r ≠ [] := fun hr => hlast ⟨hr, rfl⟩
    obtain ⟨dir, name, hname, hplace⟩ := ih hstart hnotDirectory
    rw [List.getLast?_append, List.getLast?_eq_some_getLast hr, Option.some_or] at hname
    rw [← List.getLast?_eq_some_getLast hr] at hname
    exact hcons ⟨dir, name, hname, hplace⟩

/-- A path leads to a link, which is not followed at its end. -/
def IsLink (fs : FileSystem) (p : Path) : Prop :=
  ∃ place target, fs.locate false p = .ok (.present place (.link target))

/-- A path that leads to a file, and not through a link at its end, has the file's name. -/
theorem fileName?_of_locate {fs : FileSystem} {p : Path} {place : Place} {content : ByteArray}
    (h : fs.locate true p = .ok (.present place (.file content))) (hlink : ¬ fs.IsLink p) :
    ∃ dir name, p.fileName? = some name ∧ place = dir ++ [name] := by
  have hfollow := (locate_eq_follow h fs).symm.trans h
  have hfalse := locate_eq_follow_of_ok h fs false
  rcases follow_true_eq fs maxLinks [] p.components with ⟨place, target, hlinked⟩ | heq
  · exact absurd ⟨place, target, hfalse.trans hlinked⟩ hlink
  · rw [heq] at hfollow
    obtain ⟨dir, name, hlast, hplace⟩ :=
      last_of_follow ⟨fs.entries, rfl⟩ hfollow fun _ _ => nofun
    refine ⟨dir, name, ?_, hplace⟩
    unfold Path.fileName?
    rw [hlast]

/-! ## 3. Writing again -/

theorem leadsToDirectory_of_follow {fs : FileSystem} {components : List Path.Component}
    {place : Place} {entries : List (RawText × Node)}
    (h : fs.follow false maxLinks [] components = .ok (.present place (.directory entries))) :
    fs.leadsToDirectory components = true := by
  rcases follow_true_eq fs maxLinks [] components with ⟨_, _, hlinked⟩ | heq
  · rw [h] at hlinked
    cases hlinked
  · unfold leadsToDirectory
    rw [heq, h]

theorem leadsToDirectory_eq_true_iff {fs : FileSystem} {components : List Path.Component} :
    fs.leadsToDirectory components = true ↔ ∃ place entries,
      fs.follow true maxLinks [] components = .ok (.present place (.directory entries)) := by
  unfold leadsToDirectory
  split
  next place entries h => exact ⟨fun _ => ⟨place, entries, h⟩, fun _ => rfl⟩
  next hnot =>
    refine ⟨nofun, ?_⟩
    rintro ⟨place, entries, h⟩
    exact absurd h (hnot place entries)

theorem leadsToDirectory_extends {fs fs' : FileSystem} {components : List Path.Component}
    (h : fs.Extends fs') (hleads : fs.leadsToDirectory components = true) :
    fs'.leadsToDirectory components = true := by
  obtain ⟨place, entries, hfollow⟩ := leadsToDirectory_eq_true_iff.mp hleads
  obtain ⟨entries', hentries'⟩ := h.directory (at?_of_follow hfollow)
  exact leadsToDirectory_eq_true_iff.mpr
    ⟨place, entries', follow_extends h hfollow hentries' fun _ => nofun⟩

section Ensure

variable {fs fs' : FileSystem} {components : List Path.Component}

theorem leadsToDirectory_makeDirectory (h : fs.makeDirectory components = (fs', .ok ())) :
    fs'.leadsToDirectory components = true := by
  obtain ⟨_, -, hleads, -⟩ := makeDirectory_ok h
  exact leadsToDirectory_of_follow hleads

theorem leadsToDirectory_ensureDirectory (h : fs.ensureDirectory components = (fs', .ok ())) :
    fs'.leadsToDirectory components = true := by
  unfold ensureDirectory at h
  split at h
  next fs₁ hmake =>
    obtain rfl := (Prod.mk.inj h).1
    exact leadsToDirectory_makeDirectory hmake
  next fs₁ e hmake =>
    obtain ⟨rfl, hdone⟩ := Prod.mk.inj h
    split at hdone
    next hleads => exact hleads
    next => cases hdone

/-- The directories that a path asks for are there. -/
theorem leadsToDirectory_ensureDirectories (hne : components ≠ [])
    (h : fs.ensureDirectories components = (fs', .ok ())) :
    fs'.leadsToDirectory components.reverse = true := by
  cases components with
  | nil => exact absurd rfl hne
  | cons c above =>
    unfold ensureDirectories at h
    split at h
    next fs₁ hmake =>
      split at h
      next fs₂ habove => exact leadsToDirectory_ensureDirectory h
      next => cases (Prod.mk.inj h).2
    next fs₁ e _ hmake =>
      obtain ⟨rfl, hdone⟩ := Prod.mk.inj h
      split at hdone
      next hleads => exact hleads
      next => cases hdone
    next fs₁ hmake =>
      obtain rfl := (Prod.mk.inj h).1
      exact leadsToDirectory_makeDirectory hmake

theorem makeDirectory_of_leadsToDirectory (h : fs.leadsToDirectory components = true) :
    ∃ e, e ≠ .notFound ∧ fs.makeDirectory components = (fs, .error e) := by
  obtain ⟨place, entries, hfollow⟩ := leadsToDirectory_eq_true_iff.mp h
  unfold makeDirectory
  split
  next => exact ⟨.nulInPath, nofun, rfl⟩
  next =>
    -- what the path leads to, be it a link, is in the way
    rcases follow_true_eq fs maxLinks [] components with ⟨_, _, hlinked⟩ | heq
    · rw [hlinked]
      exact ⟨.alreadyExists, nofun, rfl⟩
    · rw [← heq, hfollow]
      exact ⟨.alreadyExists, nofun, rfl⟩

/-- Where the directories are there, none is created. -/
theorem ensureDirectories_of_leadsToDirectory
    (h : components ≠ [] → fs.leadsToDirectory components.reverse = true) :
    fs.ensureDirectories components = (fs, .ok ()) := by
  cases components with
  | nil => rfl
  | cons c above =>
    have hleads := h (List.cons_ne_nil c above)
    obtain ⟨e, he, hmake⟩ := makeDirectory_of_leadsToDirectory hleads
    unfold ensureDirectories
    rw [hmake]
    cases e with
    | notFound => exact absurd rfl he
    | _ => exact congrArg _ (if_pos hleads)

end Ensure

end FileSystem

theorem Node.setNamed_self {name : RawText} {child : Node} {entries : List (RawText × Node)}
    (h : named? name entries = some child) : setNamed name child entries = entries := by
  induction entries with
  | nil => cases h
  | cons e entries ih =>
    obtain ⟨n, node⟩ := e
    rw [named?] at h
    rw [setNamed]
    by_cases hn : n = name
    · rw [if_pos hn] at h
      rw [if_pos hn, Option.some.inj h]
    · rw [if_neg hn] at h
      rw [if_neg hn, ih h]

theorem Node.set_self {node child : Node} {names : List RawText} (h : node.at? names = some child) :
    node.set child names = node := by
  induction names generalizing node with
  | nil => exact (Option.some.inj h).symm
  | cons name names ih =>
    cases node with
    | directory entries =>
      rw [at?_directory] at h
      obtain ⟨next, hnext, h⟩ := Option.bind_eq_some_iff.mp h
      by_cases hnames : names = []
      · subst hnames
        obtain rfl : next = child := Option.some.inj h
        rw [set_singleton, setNamed_self hnext]
      · rw [set_cons child hnext hnames, ih h, setNamed_self hnext]
    | _ => cases h

namespace FileSystem

theorem set_self {fs : FileSystem} {place : Place} {node : Node} (h : fs.at? place = some node) :
    fs.set place node = fs := by
  unfold set
  rw [Node.set_self h]

variable {fs fs' : FileSystem} {p : Path} {content : ByteArray}

theorem write_again (h : fs.write p content = (fs', .ok ())) :
    fs'.write p content = (fs', .ok ()) := by
  have hend := (write_eq_ok h).1
  obtain ⟨place, hwritten, -⟩ := write_ok h
  obtain ⟨hslash, hdot⟩ := Bool.or_eq_false_iff.mp hend
  unfold write
  rw [hslash, hdot, hwritten.leads]
  exact congrArg (·, _) (set_self (at?_of_locate hwritten.leads))

/-- Writing the same once more leaves the file system as it is. -/
theorem writeWithDirectories_again (h : fs.writeWithDirectories p content = (fs', .ok ())) :
    fs'.writeWithDirectories p content = (fs', .ok ()) := by
  obtain ⟨fs₁, hensure, hwrite⟩ := writeWithDirectories_eq_ok_iff.mp h
  obtain ⟨place, hwritten, hsame⟩ := write_ok hwrite
  have hextends : fs₁.Extends fs' :=
    Extends.of_file hsame (at?_of_locate hwritten.leads) hwritten.before
  refine writeWithDirectories_eq_ok_iff.mpr ⟨fs', ?_, write_again hwrite⟩
  apply ensureDirectories_of_leadsToDirectory
  intro hne
  exact leadsToDirectory_extends hextends (leadsToDirectory_ensureDirectories hne hensure)

end FileSystem

/-! ## 4. Proper file systems -/

theorem Path.isEntryName_of_mem_components {p : Path} {name : RawText}
    (h : .name name ∈ p.components) : IsEntryName name := by
  unfold components at h
  rcases List.mem_append.mp h with hlead | hpiece
  · -- what leads a path is no name
    split at hlead
    next => cases List.mem_singleton.mp hlead
    next =>
      split at hlead
      next => cases List.mem_singleton.mp hlead
      next => cases hlead
  · obtain ⟨piece, hmem, hname⟩ := List.mem_filterMap.mp hpiece
    unfold Component.ofPiece? at hname
    split at hname
    next => cases hname
    next hnone =>
      split at hname
      next => cases hname
      next hup =>
        cases hname
        obtain ⟨hempty, hhere⟩ := not_or.mp hnone
        constructor
        case nonempty => exact hempty
        case noSlash => exact Text.not_mem_of_mem_split hmem
        case notHere => exact hhere
        case notUp => exact hup

namespace Node

theorem mem_setNamed {name : RawText} {new : Node} {entries : List (RawText × Node)}
    {e : RawText × Node} (h : e ∈ setNamed name new entries) : e = (name, new) ∨ e ∈ entries := by
  induction entries with
  | nil => exact .inl (List.mem_singleton.mp h)
  | cons d entries ih =>
    rw [setNamed] at h
    split at h
    next hname =>
      rcases List.mem_cons.mp h with h | h
      · exact .inl (hname ▸ h)
      · exact .inr (List.mem_cons_of_mem _ h)
    next =>
      rcases List.mem_cons.mp h with h | h
      · exact .inr (h ▸ List.mem_cons_self)
      · exact (ih h).imp id (List.mem_cons_of_mem _)

theorem nodup_setNamed (name : RawText) (new : Node) {entries : List (RawText × Node)}
    (h : (entries.map Prod.fst).Nodup) : ((setNamed name new entries).map Prod.fst).Nodup := by
  induction entries with
  | nil => exact List.nodup_singleton name
  | cons e entries ih =>
    obtain ⟨n, node⟩ := e
    obtain ⟨hn, hrest⟩ := List.nodup_cons.mp h
    rw [setNamed]
    split
    next => exact h
    next hname =>
      refine List.nodup_cons.mpr ⟨fun hmem => ?_, ih hrest⟩
      obtain ⟨e, he, hen⟩ := List.mem_map.mp hmem
      rcases mem_setNamed he with rfl | he
      · exact hname hen.symm
      · exact hn (List.mem_map.mpr ⟨e, he, hen⟩)

theorem Proper.setNamed {name : RawText} {new : Node} {entries : List (RawText × Node)}
    (h : (Node.directory entries).Proper) (hname : IsEntryName name) (hnew : new.Proper) :
    (Node.directory (Node.setNamed name new entries)).Proper := by
  apply Proper.directory
  · exact nodup_setNamed name new h.distinct
  · intro e he
    rcases mem_setNamed he with rfl | he
    · exact hname
    · exact h.isEntryName he
  · intro e he
    rcases mem_setNamed he with rfl | he
    · exact hnew
    · exact h.inside he

theorem Proper.set {node new : Node} {names : List RawText} {name : RawText}
    {entries : List (RawText × Node)} (h : node.Proper)
    (hdirectory : node.at? names = some (Node.directory entries)) (hname : IsEntryName name)
    (hnew : new.Proper) : (node.set new (names ++ [name])).Proper := by
  induction names generalizing node with
  | nil =>
    obtain rfl : node = Node.directory entries := Option.some.inj hdirectory
    exact h.setNamed hname hnew
  | cons n names ih =>
    cases node with
    | directory above =>
      rw [at?_directory] at hdirectory
      obtain ⟨child, hchild, hdirectory⟩ := Option.bind_eq_some_iff.mp hdirectory
      have hmem := mem_of_named? hchild
      rw [List.cons_append, set_cons new hchild (by simp)]
      exact h.setNamed (h.isEntryName hmem) (ih (h.inside hmem) hdirectory)
    | _ => cases hdirectory

end Node

namespace FileSystem

variable {fs fs' : FileSystem}

theorem Proper.set {dir : Place} {name : RawText} {entries : List (RawText × Node)} {new : Node}
    (h : fs.Proper) (hdir : fs.at? dir = some (.directory entries)) (hname : IsEntryName name)
    (hnew : new.Proper) : (fs.set (dir ++ [name]) new).Proper := by
  obtain ⟨es, hes⟩ := Node.set_directory fs.entries new (List.append_ne_nil_of_right_ne_nil dir
    (List.cons_ne_nil name []))
  have hset := Node.Proper.set h hdir hname hnew
  unfold Proper FileSystem.set
  rw [hes] at hset ⊢
  exact hset

/-- What a path names where nothing stands is the name of an entry. -/
theorem isEntryName_of_follow {followLast : Bool} {links : Nat} {start dir : Place}
    {components : List Path.Component} {name : RawText}
    (hnames : ∀ n, .name n ∈ components → IsEntryName n)
    (h : fs.follow followLast links start components = .ok (.absent dir name)) :
    IsEntryName name := by
  replace h := follow_eq_ok_iff.mp h
  generalize ht : Target.absent dir name = t at h
  induction h with
  | root _ ih | here _ ih | up _ ih | directory _ _ _ ih =>
    exact ih (fun n hn => hnames n (List.mem_cons_of_mem _ hn)) ht
  | absent =>
    cases ht
    exact hnames _ List.mem_cons_self
  | nil | file | lastLink => cases ht
  | link _ _ _ _ _ ih =>
    -- the names of a link are those of a path
    refine ih (fun n hn => ?_) ht
    rcases List.mem_append.mp hn with hn | hn
    · exact Path.isEntryName_of_mem_components hn
    · exact hnames n (List.mem_cons_of_mem _ hn)

theorem Proper.makeDirectory (h : fs.Proper) {components : List Path.Component}
    (hnames : ∀ n, .name n ∈ components → IsEntryName n) :
    (fs.makeDirectory components).1.Proper := by
  unfold FileSystem.makeDirectory
  split
  next => exact h
  next =>
    split
    next => exact h
    next => exact h
    next dir name ht =>
      obtain ⟨⟨entries, hdir⟩, -⟩ := isIn_of_follow ⟨fs.entries, rfl⟩ ht
      exact h.set hdir (isEntryName_of_follow hnames ht) .nil

theorem Proper.ensureDirectories (h : fs.Proper) {components : List Path.Component}
    (hnames : ∀ n, .name n ∈ components → IsEntryName n) :
    (fs.ensureDirectories components).1.Proper := by
  induction components generalizing fs with
  | nil => exact h
  | cons c above ih =>
    have hnames' : ∀ n, .name n ∈ (c :: above).reverse → IsEntryName n :=
      fun n hn => hnames n (List.mem_reverse.mp hn)
    have habove := fun n hn => hnames n (List.mem_cons_of_mem c hn)
    have hmake := h.makeDirectory hnames'
    unfold FileSystem.ensureDirectories
    split
    next fs₁ hfs₁ =>
      rw [hfs₁] at hmake
      have hensure := ih hmake habove
      split
      next fs₂ hfs₂ =>
        rw [hfs₂] at hensure
        have hmake' := Proper.makeDirectory hensure hnames'
        unfold ensureDirectory
        split <;> next hfs₃ => rwa [hfs₃] at hmake'
      next fs₂ e hfs₂ => rwa [hfs₂] at hensure
    next fs₁ e _ hfs₁ => rwa [hfs₁] at hmake
    next fs₁ hfs₁ => rwa [hfs₁] at hmake

theorem Proper.write (h : fs.Proper) {p : Path} {content : ByteArray}
    (hwrite : fs.write p content = (fs', .ok ())) : fs'.Proper := by
  obtain ⟨-, t, ht, -, rfl⟩ := write_eq_ok hwrite
  have hfollow := (locate_eq_follow ht fs).symm.trans ht
  cases t with
  | present place node =>
    have hnode := at?_of_locate ht
    rcases place.eq_nil_or_concat with rfl | ⟨dir, name, rfl⟩
    · exact h
    · rw [List.concat_eq_append] at hnode ⊢
      obtain ⟨entries, hdir⟩ := directory_of_at? hnode
      have hname := Node.Proper.names_of_at? h hnode name (by simp)
      exact h.set hdir hname (.file content)
  | absent dir name =>
    obtain ⟨⟨entries, hdir⟩, -⟩ := isIn_of_follow ⟨fs.entries, rfl⟩ hfollow
    have hname := isEntryName_of_follow (fun _ => Path.isEntryName_of_mem_components) hfollow
    exact h.set hdir hname (.file content)

theorem Proper.writeWithDirectories (h : fs.Proper) {p : Path} {content : ByteArray}
    (hwrite : fs.writeWithDirectories p content = (fs', .ok ())) : fs'.Proper := by
  obtain ⟨fs₁, hensure, hwrite⟩ := writeWithDirectories_eq_ok_iff.mp hwrite
  have hnames : ∀ n, .name n ∈ p.components.reverse.tail → IsEntryName n := fun n hn =>
    Path.isEntryName_of_mem_components (List.mem_reverse.mp (List.mem_of_mem_tail hn))
  have hproper := h.ensureDirectories hnames
  rw [hensure] at hproper
  exact Proper.write hproper hwrite

end FileSystem
end MarkupCatalog

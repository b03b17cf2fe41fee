import MarkupCatalog.Proofs.FileChanges
import MarkupCatalog.Proofs.Walk

/-!
# The shape of a file system

The shape of a file system is what is left of it when all its files are empty.  It decides where
paths lead, which files are selected and which can be written, so that what files hold makes no
difference to any of these.
-/

namespace MarkupCatalog

/-! ## 1. Nodes -/

namespace Node

mutual

/-- The tree with all files empty. -/
def shape : Node → Node
  | file _ => file .empty
  | link target => link target
  | directory entries => directory (shapes entries)

def shapes : List (RawText × Node) → List (RawText × Node)
  | [] => []
  | (name, node) :: r => (name, node.shape) :: shapes r

end

theorem shape_file (content : ByteArray) : (file content).shape = file .empty := by
  rw [shape]

theorem shape_link (target : RawText) : (link target).shape = link target := by
  rw [shape]

theorem shape_directory (entries : List (RawText × Node)) :
    (directory entries).shape = directory (shapes entries) := by
  rw [shape]

theorem kind_shape (node : Node) : node.shape.kind = node.kind := by
  cases node with
  | file content => rw [shape_file]; rfl
  | link target => rw [shape_link]
  | directory entries => rw [shape_directory]; rfl

theorem named?_shapes (name : RawText) (entries : List (RawText × Node)) :
    named? name (shapes entries) = (named? name entries).map shape := by
  induction entries with
  | nil =>
    rw [shapes]
    rfl
  | cons e entries ih =>
    obtain ⟨n, node⟩ := e
    rw [shapes, named?, named?, ih]
    split <;> rfl

theorem at?_shape (node : Node) (names : List RawText) :
    node.shape.at? names = (node.at? names).map shape := by
  induction names generalizing node with
  | nil => rfl
  | cons name names ih =>
    cases node with
    | file content => rw [shape_file]; rfl
    | link target => rw [shape_link]; rfl
    | directory entries =>
      rw [shape_directory, at?_directory, at?_directory, named?_shapes]
      cases named? name entries with
      | none => rfl
      | some child => exact ih child

theorem setNamed_shapes (name : RawText) (new : Node) (entries : List (RawText × Node)) :
    setNamed name new.shape (shapes entries) = shapes (setNamed name new entries) := by
  induction entries with
  | nil => simp only [shapes, setNamed]
  | cons e entries ih =>
    obtain ⟨n, node⟩ := e
    rw [shapes, setNamed, setNamed]
    split
    next => rw [shapes]
    next => rw [shapes, ih]

theorem set_shape (node new : Node) (names : List RawText) :
    node.shape.set new.shape names = (node.set new names).shape := by
  induction names generalizing node with
  | nil => rfl
  | cons name names ih =>
    cases node with
    | file content =>
      rw [shape_file]
      cases names <;> simp only [set, shape_file]
    | link target =>
      rw [shape_link]
      cases names <;> simp only [set, shape_link]
    | directory entries =>
      rw [shape_directory]
      cases names with
      | nil => rw [set_singleton, set_singleton, setNamed_shapes, shape_directory]
      | cons n names =>
        have hnamed := named?_shapes name entries
        cases hchild : named? name entries with
        | none =>
          rw [hchild] at hnamed
          simp only [set, hchild, hnamed, Option.map_none, shape_directory]
        | some child =>
          rw [hchild] at hnamed
          rw [set_cons new.shape hnamed (List.cons_ne_nil n names), ih,
            set_cons new hchild (List.cons_ne_nil n names), setNamed_shapes, shape_directory]

end Node

/-! ## 2. Paths -/

namespace FileSystem

def shape (fs : FileSystem) : FileSystem := ⟨Node.shapes fs.entries⟩

theorem at?_shape (fs : FileSystem) (place : Place) :
    fs.shape.at? place = (fs.at? place).map Node.shape := by
  have hplace := Node.at?_shape (.directory fs.entries) place
  rwa [Node.shape_directory] at hplace

theorem set_shape (fs : FileSystem) (place : Place) (new : Node) :
    fs.shape.set place new.shape = (fs.set place new).shape := by
  have hset := Node.set_shape (.directory fs.entries) new place
  rw [Node.shape_directory] at hset
  unfold FileSystem.set shape
  dsimp only
  rw [hset]
  cases (Node.directory fs.entries).set new place with
  | file content => rw [Node.shape_file]
  | link target => rw [Node.shape_link]
  | directory entries => rw [Node.shape_directory]

theorem extends_shape (fs : FileSystem) : fs.Extends fs.shape := by
  intro place node hnode
  refine ⟨node.shape, ?_, node.kind_shape⟩
  rw [at?_shape, hnode, Option.map_some]

def Target.shape : Target → Target
  | present place node => present place node.shape
  | absent dir name => absent dir name

theorem follow_shape (fs : FileSystem) (followLast : Bool) (links : Nat) (start : Place)
    (components : List Path.Component) :
    fs.shape.follow followLast links start components =
      (fs.follow followLast links start components).map Target.shape := by
  have hmissing (place : Place) (hnode : fs.at? place = none) : fs.shape.at? place = none := by
    rw [at?_shape, hnode, Option.map_none]
  rcases Target.cases_of_map_kind
      (follow_congr fs.extends_shape hmissing followLast links start components) with
    ⟨e, hfound, hfound'⟩ | ⟨dir, name, hfound, hfound'⟩ | ⟨place, node, node', hfound, hfound'⟩
  · rw [hfound, hfound']
    rfl
  · rw [hfound, hfound']
    rfl
  · -- both lead to the same place, and there stands the node or its shape
    have hnode := at?_of_follow hfound'
    rw [at?_shape, at?_of_follow hfound] at hnode
    rw [hfound, hfound', ← Option.some.inj hnode]
    rfl

theorem locate_shape (fs : FileSystem) (followLast : Bool) (p : Path) :
    fs.shape.locate followLast p = (fs.locate followLast p).map Target.shape := by
  unfold locate
  split
  next => rfl
  next =>
    split
    next => rfl
    next => exact follow_shape fs followLast maxLinks [] p.components

theorem target_shape (fs : FileSystem) (followLast : Bool) (p : Path) :
    fs.shape.target followLast p = (fs.target followLast p).map Target.shape := by
  unfold target
  rw [locate_shape]
  cases fs.locate (followLast || p.endsAsDirectory) p with
  | error e => rfl
  | ok t =>
    cases t with
    | absent dir name => rfl
    | present place node =>
      simp only [Except.map, Target.shape]
      cases node with
      | file content =>
        rw [Node.shape_file]
        dsimp only
        split
        next => rfl
        next => rw [← Node.shape_file content]
      | link target =>
        rw [Node.shape_link]
        dsimp only
        rw [Node.shape_link]
      | directory entries =>
        rw [Node.shape_directory]
        dsimp only
        rw [Node.shape_directory]

theorem node?_shape (fs : FileSystem) (p : Path) :
    fs.shape.node? p = (fs.node? p).map Node.shape := by
  unfold node?
  rw [target_shape]
  cases fs.target true p with
  | error e => rfl
  | ok t => cases t <;> rfl

theorem isFile_shape (fs : FileSystem) (p : Path) : fs.shape.isFile p = fs.isFile p := by
  unfold isFile
  rw [node?_shape]
  cases fs.node? p with
  | error e => rfl
  | ok node => cases node <;> simp only [Except.map, Node.shape]

theorem directory?_shape (fs : FileSystem) (p : Path) :
    fs.shape.directory? p = (fs.directory? p).map Node.shapes := by
  unfold directory?
  rw [node?_shape]
  cases fs.node? p with
  | error e => rfl
  | ok node => cases node <;> simp only [Except.map, Node.shape, Option.map]

/-! ## 3. Changes -/

def Change.shape (c : Change) : Change := (c.1.shape, c.2)

theorem makeDirectory_shape (fs : FileSystem) (components : List Path.Component) :
    fs.shape.makeDirectory components = Change.shape (fs.makeDirectory components) := by
  unfold makeDirectory
  rw [follow_shape]
  split
  next => rfl
  next =>
    cases fs.follow false maxLinks [] components with
    | error e => rfl
    | ok t =>
      cases t with
      | present place node => rfl
      | absent dir name =>
        have hset := fs.set_shape (dir ++ [name]) (.directory [])
        rw [Node.shape_directory, Node.shapes] at hset
        exact congrArg (·, _) hset

theorem leadsToDirectory_shape (fs : FileSystem) (components : List Path.Component) :
    fs.shape.leadsToDirectory components = fs.leadsToDirectory components := by
  unfold leadsToDirectory
  rw [follow_shape]
  cases fs.follow true maxLinks [] components with
  | error e => rfl
  | ok t =>
    cases t with
    | absent dir name => rfl
    | present place node => cases node <;> simp only [Except.map, Target.shape, Node.shape]

theorem ensureDirectory_shape (fs : FileSystem) (components : List Path.Component) :
    fs.shape.ensureDirectory components = Change.shape (fs.ensureDirectory components) := by
  unfold ensureDirectory
  rw [makeDirectory_shape]
  cases fs.makeDirectory components with
  | mk fs' r =>
    cases r with
    | ok _ => rfl
    | error e => simp only [Change.shape, leadsToDirectory_shape]

theorem ensureDirectories_shape (fs : FileSystem) (components : List Path.Component) :
    fs.shape.ensureDirectories components = Change.shape (fs.ensureDirectories components) := by
  induction components generalizing fs with
  | nil => rfl
  | cons c above ih =>
    unfold ensureDirectories
    rw [makeDirectory_shape]
    cases fs.makeDirectory (c :: above).reverse with
    | mk fs' r =>
      cases r with
      | ok _ => rfl
      | error e =>
        simp only [Change.shape]
        -- the directories above come into it only if something was not found
        cases e with
        | notFound =>
          dsimp only
          rw [ih]
          cases fs'.ensureDirectories above with
          | mk fs'' r =>
            cases r with
            | ok _ => exact ensureDirectory_shape fs'' _
            | error e => rfl
        | _ => simp only [leadsToDirectory_shape]

/-- Whether a file can be written does not depend on what it is to hold. -/
theorem write_shape (fs : FileSystem) (p : Path) (content : ByteArray) :
    fs.shape.write p .empty = Change.shape (fs.write p content) := by
  have hset (place : Place) := fs.set_shape place (.file content)
  simp only [Node.shape_file] at hset
  -- writing branches on where the path leads, and on the kind of what is there
  unfold write
  rw [locate_shape, locate_shape]
  split
  next => cases fs.locate false p <;> rfl
  next =>
    cases fs.locate true p with
    | error e => rfl
    | ok t =>
      cases t with
      | absent dir name =>
        simp only [Except.map, Target.shape]
        split
        next => rfl
        next => exact congrArg (·, _) (hset (dir ++ [name]))
      | present place node =>
        simp only [Except.map, Target.shape]
        cases node with
        | directory entries =>
          rw [Node.shape_directory]
          rfl
        | file old =>
          rw [Node.shape_file]
          dsimp only
          split
          next => rfl
          next => exact congrArg (·, _) (hset place)
        | link target =>
          rw [Node.shape_link]
          dsimp only
          split
          next => rfl
          next => exact congrArg (·, _) (hset place)

theorem writeWithDirectories_shape (fs : FileSystem) (p : Path) (content : ByteArray) :
    fs.shape.writeWithDirectories p .empty =
      Change.shape (fs.writeWithDirectories p content) := by
  unfold writeWithDirectories
  rw [ensureDirectories_shape]
  cases fs.ensureDirectories p.components.reverse.tail with
  | mk fs' r =>
    cases r with
    | ok _ => exact write_shape fs' p content
    | error e => rfl

theorem snd_writeWithDirectories_shape (fs : FileSystem) (p : Path) (content : ByteArray) :
    (fs.shape.writeWithDirectories p .empty).2 = (fs.writeWithDirectories p content).2 := by
  rw [writeWithDirectories_shape fs p content]
  rfl

end FileSystem

/-! ## 4. Selected files -/

namespace Selection

mutual

theorem found_shape (s : Selection) (above : List RawText) (name : RawText) (node : Node) :
    s.found above (name, node.shape) = s.found above (name, node) := by
  cases node with
  | file content => rw [Node.shape_file]; rfl
  | link target => rw [Node.shape_link]
  | directory entries =>
    rw [Node.shape_directory]
    unfold found
    dsimp only
    rw [walk_shapes s (above ++ [name]) entries]

theorem walk_shapes (s : Selection) (above : List RawText) (entries : List (RawText × Node)) :
    s.walk above (Node.shapes entries) = s.walk above entries := by
  cases entries with
  | nil => rw [Node.shapes]
  | cons e entries =>
    have hrest := walk_shapes s above entries
    obtain ⟨name, node⟩ := e
    rw [walk_eq_flatMap, walk_eq_flatMap] at hrest
    rw [Node.shapes, walk_eq_flatMap, walk_eq_flatMap, List.flatMap_cons, List.flatMap_cons,
      hrest, found_shape s above name node]

end

end Selection

theorem FileSystem.select_shape (fs : FileSystem) (base : Path) (pattern : String)
    (excludes : List String) :
    fs.shape.select base pattern excludes = fs.select base pattern excludes := by
  unfold select
  dsimp only
  rw [directory?_shape]
  cases fs.directory? (Selection.walkRoot base pattern) with
  | none => rfl
  | some entries => simp only [Option.map_some, Selection.walk_shapes]

end MarkupCatalog

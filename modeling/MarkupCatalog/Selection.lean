import MarkupCatalog.Dialect
import MarkupCatalog.FileSystem.Access
import MarkupCatalog.Glob.Root
import MarkupCatalog.Glob.Rule

/-!
# Selections

The source files that a pattern selects. The pattern's literal root is walked; hidden entries,
directories with dependencies or build output, and what a pattern excludes are not entered, and
links are not followed below the root.
-/

namespace MarkupCatalog

/-- What is taken and what is left out below a directory. -/
structure Selection where
  included : Glob.Rule
  excluded : List Glob.Rule

namespace Selection

/-! ## 1. Patterns -/

def rule (pattern shown text : String) : Except Failure Glob.Rule :=
  match Glob.Rule.parse shown text with
  | .ok r => .ok r
  | .error e => .error (.invalidPattern pattern e.message)

def ofPatterns (pattern : String) (excludes : List String) : Except Failure Selection := do
  let included ← rule pattern "" (Glob.Rooted.ofPattern pattern).tied
  let excluded ← excludes.mapM fun e => rule e "!" e
  return { included, excluded }

/-- The directory that a pattern's literal root names, seen from `base`. -/
def walkRoot (base : Path) (pattern : String) : Path :=
  let root := (Glob.Rooted.ofPattern pattern).root
  if root.isAbsolute then root
  else if root.components = [.here] then base
  else base.join root

/-! ## 2. Walking -/

def excludes (s : Selection) (names : List RawText) (isDirectory : Bool) : Bool :=
  s.excluded.any fun r => r.applies names isDirectory

/-- A file at the end of these names is selected, if the walk gets there. -/
def takes (s : Selection) (names : List RawText) (name : RawText) : Bool :=
  s.included.applies names false && isSourceName name

/-- The names that lead to the selected files among entries below a directory. -/
def walk (s : Selection) (above : List RawText) : List (RawText × Node) → List (List RawText)
  | [] => []
  | (name, node) :: rest =>
    let names := above ++ [name]
    let here :=
      if isSkippedName name then []
      else match node with
        | .file _ => if !s.excludes names false && s.takes names name then [names] else []
        | .link _ => []
        | .directory entries => if s.excludes names true then [] else walk s names entries
    here ++ walk s above rest

/-- One file comes no later than another: the first name in which they differ decides. -/
def inOrder : List RawText → List RawText → Bool
  | [], _ => true
  | _ :: _, [] => false
  | a :: as, b :: bs => if a = b then inOrder as bs else a.bytes < b.bytes

/-- Files in the order of their names, directory by directory. -/
def sorted (files : List (List RawText)) : List (List RawText) := files.mergeSort inOrder

/-- The path of a file below a directory. -/
def pathOf (root : Path) (names : List RawText) : Path :=
  names.foldl (fun p name => p.join ⟨name⟩) root

end Selection

/-- The source files that a pattern selects, without those that other patterns exclude. -/
def FileSystem.select (fs : FileSystem) (base : Path) (pattern : String) (excludes : List String) :
    Except Failure (List Path) :=
  let root := Selection.walkRoot base pattern
  match fs.directory? root with
  | none => .error (.fileNotFound root.text)
  | some entries =>
    (Selection.ofPatterns pattern excludes).map fun s =>
      (Selection.sorted (s.walk [] entries)).map (Selection.pathOf root)

end MarkupCatalog

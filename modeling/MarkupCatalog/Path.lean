import MarkupCatalog.Text.Raw

/-!
# Paths

A path is kept as it is written, because messages show it so. Its components leave out what does
not count: doubled slashes, a slash at the end, and dots that stand for the directory itself.
-/

namespace MarkupCatalog

structure Path where
  ofRaw ::
  raw : RawText
  deriving DecidableEq, Repr

namespace Path

def mk (s : String) : Path := ⟨s⟩

/-- The path as it is shown. -/
def text (p : Path) : String := p.raw.shown

@[simp] theorem text_mk (s : String) : (mk s).text = s := RawText.shown_ofString s

abbrev slash : UInt8 := '/'.toUInt8

abbrev dot : UInt8 := '.'.toUInt8

inductive Component where
  | root
  /-- A dot in front of a relative path. -/
  | here
  | up
  | name (s : RawText)
  deriving DecidableEq, Repr

/-! ## 1. Components -/

def Component.hasNul : Component → Bool
  | name s => s.bytes.contains 0
  | _ => false

def isAbsolute (p : Path) : Bool := p.raw.bytes.head? = some slash

/-- What a piece between slashes stands for, in the middle of a path. -/
def Component.ofPiece? (piece : List UInt8) : Option Component :=
  if piece = [] ∨ piece = [dot] then none
  else if piece = [dot, dot] then some .up
  else some (.name ⟨piece⟩)

def components (p : Path) : List Component :=
  let pieces := Text.split slash p.raw.bytes
  let lead : List Component :=
    if p.isAbsolute then [.root] else if pieces.head? = some [dot] then [.here] else []
  lead ++ pieces.filterMap Component.ofPiece?

def endsInSlash (p : Path) : Bool := p.raw.bytes.getLast? = some slash

/-- The last thing that is written, slashes apart, is a dot. -/
def endsInDot (p : Path) : Bool :=
  ((Text.split slash p.raw.bytes).filter (· ≠ [])).getLast? = some [dot]

/-- A path with a slash or a dot at its end means a directory. -/
def endsAsDirectory (p : Path) : Bool := p.endsInSlash || p.endsInDot

/-- The path `p` as seen from `base`. -/
def join (base p : Path) : Path :=
  if p.isAbsolute then p
  else if base.raw.bytes = [] ∨ base.endsInSlash then ⟨⟨base.raw.bytes ++ p.raw.bytes⟩⟩
  else ⟨⟨base.raw.bytes ++ slash :: p.raw.bytes⟩⟩

/-! ## 2. File names -/

/-- The last component, if it is a name. -/
def fileName? (p : Path) : Option RawText :=
  match p.components.getLast? with
  | some (.name s) => some s
  | _ => none

/-- What follows the last dot of a file name, unless that dot begins the name. -/
def extensionOf? (name : RawText) : Option RawText :=
  let s := name.bytes.reverse
  match s.dropWhile (· ≠ dot) with
  | [] | [_] => none
  | _ => some ⟨(s.takeWhile (· ≠ dot)).reverse⟩

end Path
end MarkupCatalog

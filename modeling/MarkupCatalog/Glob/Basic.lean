/-!
# Globs

A glob is a list of pieces, read against the bytes of a path whose components are separated by
slashes. A star and a question mark stay within one component; only a class of characters can hold
a slash.
-/

namespace MarkupCatalog.Glob

abbrev slash : UInt8 := '/'.toUInt8

inductive Piece where
  | byte (b : UInt8)
  /-- Any byte but a slash. -/
  | anyByte
  /-- Any bytes but slashes. -/
  | star
  /-- Any directories from the top on, each with the slash behind it. -/
  | leading
  /-- A slash, or any directories with slashes around them. -/
  | between
  /-- A slash and whatever follows it. -/
  | trailing
  /-- One byte within one of the ranges, or within none of them. -/
  | oneOf (negated : Bool) (ranges : List (UInt8 × UInt8))
  | either (branches : List (List Piece))

/-! ## 1. What follows a beginning -/

/-- The text from each of its places on, the whole text first. -/
def suffixes : List UInt8 → List (List UInt8)
  | [] => [[]]
  | b :: r => (b :: r) :: suffixes r

/-- The text behind each beginning that holds no slash. -/
def withinComponent : List UInt8 → List (List UInt8)
  | [] => [[]]
  | b :: r => if b = slash then [b :: r] else (b :: r) :: withinComponent r

/-- The text behind each of its slashes. -/
def behindSlashes : List UInt8 → List (List UInt8)
  | [] => []
  | b :: r => if b = slash then r :: behindSlashes r else behindSlashes r

/-! ## 2. Matching -/

mutual

/-- The piece reads a beginning of the text, and `next` accepts what follows. -/
def Piece.accepts (next : List UInt8 → Bool) (s : List UInt8) : Piece → Bool
  | .byte b =>
    match s with
    | [] => false
    | c :: r => c == b && next r
  | .anyByte =>
    match s with
    | [] => false
    | c :: r => c != slash && next r
  | .star => (withinComponent s).any next
  | .leading => next s || (behindSlashes s).any next
  | .between =>
    match s with
    | [] => false
    | c :: r => c == slash && (next r || (behindSlashes r).any next)
  | .trailing =>
    match s with
    | [] => false
    | c :: r => c == slash && (suffixes r).any next
  | .oneOf negated ranges =>
    match s with
    | [] => false
    | c :: r => (ranges.any fun (lo, hi) => lo ≤ c && c ≤ hi) != negated && next r
  | .either branches => acceptsSome next s branches

/-- The pieces read a beginning of the text one after the other, and `next` accepts what follows. -/
def acceptsAll (next : List UInt8 → Bool) (s : List UInt8) : List Piece → Bool
  | [] => next s
  | p :: ps => p.accepts (fun r => acceptsAll next r ps) s

def acceptsSome (next : List UInt8 → Bool) (s : List UInt8) : List (List Piece) → Bool
  | [] => false
  | ps :: rest => acceptsAll next s ps || acceptsSome next s rest

end

/-- The glob reads the whole text. A leading piece that stands alone reads every text. -/
def reads (glob : List Piece) (s : List UInt8) : Bool :=
  match glob with
  | [.leading] => true
  | _ => acceptsAll List.isEmpty s glob

end MarkupCatalog.Glob

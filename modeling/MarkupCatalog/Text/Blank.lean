/-!
# Blanks and lines

White space as Unicode defines it, trimming, and cutting a text at a character. All functions work
on lists of characters; `String` versions stand beside them. What cuts also works on lists of bytes.
-/

namespace MarkupCatalog.Text

/-! ## 1. Blanks -/

/-- The characters with the property White_Space. -/
def isBlank (c : Char) : Bool :=
  ('\t' ≤ c && c ≤ '\r') || c == ' ' || c == '\u0085' || c == '\u00a0' || c == '\u1680' ||
    ('\u2000' ≤ c && c ≤ '\u200a') || c == '\u2028' || c == '\u2029' || c == '\u202f' ||
    c == '\u205f' || c == '\u3000'

def trimStart (s : List Char) : List Char := s.dropWhile isBlank

def trimEnd (s : List Char) : List Char := (s.reverse.dropWhile isBlank).reverse

/-- A text without the blanks at its two ends. -/
def trim (s : List Char) : List Char := trimEnd (trimStart s)

def trimmed (s : String) : String := String.ofList (trim s.toList)

/-! ## 2. Pieces -/

variable {α : Type} [DecidableEq α]

/-- The pieces between the occurrences of `sep`; there is always at least one. -/
def split (sep : α) : List α → List (List α)
  | [] => [[]]
  | c :: r =>
    if c = sep then [] :: split sep r
    else match split sep r with
      | [] => [[c]]
      | p :: ps => (c :: p) :: ps

/-- The pieces with `sep` between them. -/
def join {α : Type} (sep : List α) : List (List α) → List α
  | [] => []
  | [p] => p
  | p :: q :: ps => p ++ sep ++ join sep (q :: ps)

/-- The lines of a text: a line feed ends a line, a carriage return before it belongs to the line
break, and what follows the last line feed is a line if it is not empty. -/
def lines (s : List Char) : List (List Char) :=
  let pieces := split '\n' s
  let closed := pieces.dropLast.map fun l => if l.getLast? = some '\r' then l.dropLast else l
  match pieces.getLast? with
  | none | some [] => closed
  | some last => closed ++ [last]

/-! ## 3. Beginnings and ends -/

/-- What follows `lead` in a text that starts with it. -/
def after? : List α → List α → Option (List α)
  | [], s => some s
  | _ :: _, [] => none
  | p :: ps, c :: s => if p = c then after? ps s else none

/-- What precedes `tail` in a text that ends with it. -/
def before? (tail s : List α) : Option (List α) :=
  (after? tail.reverse s.reverse).map List.reverse

end MarkupCatalog.Text

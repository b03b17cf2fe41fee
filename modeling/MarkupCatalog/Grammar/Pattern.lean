import MarkupCatalog.Grammar.Terminal

/-!
# Patterns

A pattern says how a text is read into nodes. Alternatives are ordered: the first that fits is
taken. Comments belong to the innermost node that has tokens on both sides of them, so the
comments in front of a node's first token move out of the node.
-/

namespace MarkupCatalog

inductive Pattern (ρ : Type) where
  | empty
  | terminal (t : Terminal)
  | rule (r : ρ)
  | seq (p q : Pattern ρ)
  | alt (p q : Pattern ρ)
  | many (p : Pattern ρ)
  /-- `p` would fit; nothing is read. -/
  | ahead (p : Pattern ρ)
  /-- `p` would not fit; nothing is read. -/
  | notAhead (p : Pattern ρ)
  /-- A node around what `p` reads. -/
  | node (kind : Kind) (p : Pattern ρ)
  /-- The node that `p` reads plays the part `label`. -/
  | part (label : Label) (p : Pattern ρ)
  /-- A node that grows to the right: each link that fits wraps all that is read so far, in a part
  if it names one, and what the link reads. -/
  | grow (first : Pattern ρ) (links : List (Option Label × Kind × Pattern ρ))

namespace Pattern

variable {ρ : Type}

instance : Append (Pattern ρ) := ⟨seq⟩

instance : OrElse (Pattern ρ) := ⟨fun p q => alt p (q ())⟩

def option (p : Pattern ρ) : Pattern ρ := alt p empty

def some (p : Pattern ρ) : Pattern ρ := p ++ many p

abbrev Result := Option (List Tree × Reader)

/-- The node around what was read from `start` to `stop`; comments in front of it stay outside. -/
def wrap (kind : Kind) (start stop : Reader) (items : List Tree) : List Tree :=
  let (outside, inside) := items.span Tree.isComment
  outside ++ [.node kind none (start.slice stop) inside]

/-- Gives every node but the comments the part `label`. -/
def mark (label : Label) (items : List Tree) : List Tree :=
  items.map fun t => if t.isComment then t else t.labelled label

/-- Reads with `step` until it fails or reads nothing. Every round of `fuel` reads a token. -/
def repeated (step : Reader → Result) : Nat → Reader → List Tree × Reader
  | 0, r => ([], r)
  | fuel + 1, r =>
    match step r with
    | none => ([], r)
    | .some (xs, stop) =>
      if stop.left < r.left then
        let (ys, last) := repeated step fuel stop
        (xs ++ ys, last)
      else ([], r)

/-- Grows the node that starts at `start` as long as a link fits. -/
def grown (parse : Pattern ρ → Reader → Result) (links : List (Option Label × Kind × Pattern ρ))
    (start : Reader) : Nat → List Tree → Reader → List Tree × Reader
  | 0, items, r => (items, r)
  | fuel + 1, items, r =>
    let link := links.findSome? fun (label, kind, p) =>
      (parse p r).map fun (xs, stop) =>
        let base := match label with
          | none => items
          | .some l => mark l items
        (wrap kind start stop (base ++ xs), stop)
    match link with
    | none => (items, r)
    | .some (items', stop) =>
      if stop.left < r.left then grown parse links start fuel items' stop else (items, r)

/-- Reads a pattern whose rules are `rules`. `fuel` bounds how deep rules nest. -/
def parse (rules : ρ → Pattern ρ) : Nat → Pattern ρ → Reader → Result
  | 0, _, _ => none
  | fuel + 1, p, r =>
    match p with
    | empty => .some ([], r)
    | terminal t => t.read r
    | rule s => parse rules fuel (rules s) r
    | seq p q =>
      match parse rules fuel p r with
      | none => none
      | .some (xs, r) =>
        match parse rules fuel q r with
        | none => none
        | .some (ys, r) => .some (xs ++ ys, r)
    | alt p q =>
      match parse rules fuel p r with
      | none => parse rules fuel q r
      | .some found => .some found
    | many p => .some (repeated (parse rules fuel p) (r.left + 1) r)
    | ahead p => (parse rules fuel p r).map fun _ => ([], r)
    | notAhead p =>
      match parse rules fuel p r with
      | none => .some ([], r)
      | .some _ => none
    | node kind p =>
      (parse rules fuel p r).map fun (xs, stop) => (wrap kind r stop xs, stop)
    | part label p =>
      (parse rules fuel p r).map fun (xs, stop) => (mark label xs, stop)
    | grow first links =>
      match parse rules fuel first r with
      | none => none
      | .some (xs, stop) => .some (grown (parse rules fuel) links r (stop.left + 1) xs stop)

end Pattern
end MarkupCatalog

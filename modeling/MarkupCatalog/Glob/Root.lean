import MarkupCatalog.Path

/-!
# Literal roots

The directory that a pattern names literally in front of its first wildcard, and the glob that
remains below it. Both kinds of slashes separate components.
-/

namespace MarkupCatalog.Glob

/-- A glob below a directory. -/
structure Rooted where
  root : Path
  glob : String
  deriving DecidableEq, Repr

namespace Rooted

def isWildcard (c : Char) : Bool := c ∈ ['*', '?', '[', '\x7b']

/-- The leading components without wildcards, and the others; the last one is always among these. -/
def cut : List (List Char) → List (List Char) × List (List Char)
  | [] => ([], [])
  | [last] => ([], [last])
  | p :: q :: r =>
    if p.any isWildcard then ([], p :: q :: r)
    else
      let (literal, glob) := cut (q :: r)
      (p :: literal, glob)

def ofPattern (pattern : String) : Rooted :=
  let s := pattern.toList.map fun c => if c = '\\' then '/' else c
  let (literal, glob) := cut (Text.split '/' s)
  let root :=
    match Text.join ['/'] literal with
    | [] => if s.head? = some '/' then "/" else "."
    | text => String.ofList text
  { root := .mk root, glob := String.ofList (Text.join ['/'] glob) }

/-- The glob as a rule that applies below the root only, unless it begins with two stars. -/
def tied (r : Rooted) : String :=
  let s := r.glob.toList
  if s.head? = some '/' || (Text.after? "**".toList s).isSome then r.glob else "/" ++ r.glob

end Rooted
end MarkupCatalog.Glob

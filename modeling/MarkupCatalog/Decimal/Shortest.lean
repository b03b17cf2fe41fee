/-!
# Shortest decimals

The decimal with the fewest digits that rounds to a given floating-point number, and of those the
nearest. A finite number is `m * 2 ^ q`, and what rounds to it is an interval around it that holds
its ends exactly if `m` is even.
-/

namespace MarkupCatalog.Decimal

/-! ## 1. Rounding intervals -/

/-- The sign, `m` and `q` of a finite number; `none` for infinities and for what is no number. -/
def parts? (x : Float) : Option (Bool × Nat × Int) :=
  let bits := x.toBits.toNat
  let negative := bits / Nat.pow 2 63 == 1
  let exponent : Nat := bits / Nat.pow 2 52 % Nat.pow 2 11
  let fraction := bits % Nat.pow 2 52
  if exponent = 2047 then none
  else if exponent = 0 then some (negative, fraction, -1074)
  else some (negative, Nat.pow 2 52 + fraction, (exponent : Int) - 1075)

/-- A positive number and the ends of its rounding interval, over one denominator. -/
structure Interval where
  lo : Nat
  value : Nat
  hi : Nat
  den : Nat
  closed : Bool

/-- The rounding interval of `m * 2 ^ q`. Below a power of two the numbers are twice as dense. -/
def Interval.around (m : Nat) (q : Int) : Interval :=
  let scale := Nat.pow 2 q.toNat
  let below := if m = Nat.pow 2 52 ∧ q > -1074 then 1 else 2
  { lo := (4 * m - below) * scale
    value := 4 * m * scale
    hi := (4 * m + 2) * scale
    den := 4 * Nat.pow 2 (-q).toNat
    closed := m % 2 = 0 }

/-- The interval holds `n * 10 ^ k`. -/
def Interval.holds (i : Interval) (n : Nat) (k : Int) : Bool :=
  let x := n * Nat.pow 10 k.toNat * i.den
  let scale := Nat.pow 10 (-k).toNat
  if i.closed then i.lo * scale ≤ x && x ≤ i.hi * scale
  else i.lo * scale < x && x < i.hi * scale

/-! ## 2. Grids -/

/-- The multiple of `10 ^ k` in the interval that is nearest to the value; of two that are equally
near, the even one. -/
def Interval.nearest? (i : Interval) (k : Int) : Option Nat :=
  let num := i.value * Nat.pow 10 (-k).toNat
  let den := i.den * Nat.pow 10 k.toNat
  let n := num / den
  let rest := 2 * (num % den)
  let up := den < rest ∨ (rest = den ∧ n % 2 = 1)
  match i.holds n k, i.holds (n + 1) k with
  | true, true => some (if up then n + 1 else n)
  | true, false => some n
  | false, true => some (n + 1)
  | false, false => none

/-- The place of the first digit: the least `e` with a value below `10 ^ e`, from a bound on. -/
def Interval.magnitude (i : Interval) : Nat → Int → Int
  | 0, e => e
  | fuel + 1, e =>
    if i.value * Nat.pow 10 (1 - e).toNat < i.den * Nat.pow 10 (e - 1).toNat then
      magnitude i fuel (e - 1)
    else e

/-- The first multiple that the interval holds, on grids with more and more digits. -/
def Interval.search (i : Interval) : Nat → Int → Option (Nat × Int)
  | 0, _ => none
  | fuel + 1, k =>
    match i.nearest? k with
    | some n => some (n, k)
    | none => search i fuel (k - 1)

/-- Drops zeros at the end of `n`, and counts them into the exponent. -/
def dropZeros : Nat → Nat → Int → Nat × Int
  | 0, n, k => (n, k)
  | fuel + 1, n, k => if n % 10 = 0 ∧ n ≠ 0 then dropZeros fuel (n / 10) (k + 1) else (n, k)

/-- The shortest decimal `n * 10 ^ k` that rounds to `m * 2 ^ q`. -/
def shortest (m : Nat) (q : Int) : Nat × Int :=
  if m = 0 then (0, 0)
  else
    let i := Interval.around m q
    let e := i.magnitude 700 310
    match i.search 17 (e - 1) with
    | some (n, k) => dropZeros 20 n k
    | none => (0, 0)

end MarkupCatalog.Decimal

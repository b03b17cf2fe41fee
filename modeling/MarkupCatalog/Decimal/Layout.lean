import MarkupCatalog.Decimal.Shortest

/-!
# Number texts

How a shortest decimal is written: positionally where the point falls near its digits, and with an
exponent elsewhere.
-/

namespace MarkupCatalog.Decimal

structure Layout where
  /-- The point may stand this many places before the first digit, and no more. -/
  leadingZeros : Nat
  /-- Whole numbers are written positionally up to this many digits. -/
  wholeDigits : Nat
  /-- The least number of digits in an exponent. -/
  exponentDigits : Nat

def digits (n : Nat) : List Char := Nat.toDigits 10 n

def zeros (n : Nat) : List Char := List.replicate n '0'

/-- The exponent with its sign. -/
def Layout.exponent (style : Layout) (e : Int) : List Char :=
  let ds := digits e.natAbs
  (if e < 0 then '-' else '+') :: (zeros (style.exponentDigits - ds.length) ++ ds)

/-- The text of `n * 10 ^ k`. -/
def Layout.write (style : Layout) (n : Nat) (k : Int) : List Char :=
  let ds := digits n
  let point : Int := ds.length + k
  if 0 ≤ k ∧ point ≤ style.wholeDigits then ds ++ zeros k.toNat ++ ['.', '0']
  else if 0 < point ∧ point ≤ style.wholeDigits then
    ds.take point.toNat ++ '.' :: ds.drop point.toNat
  else if point ≤ 0 ∧ -point ≤ style.leadingZeros then
    '0' :: '.' :: (zeros (-point).toNat ++ ds)
  else
    let mantissa := match ds with
      | d :: e :: r => d :: '.' :: e :: r
      | _ => ds
    mantissa ++ 'e' :: style.exponent (point - 1)

/-- The text of a finite number. -/
def Layout.text? (style : Layout) (x : Float) : Option String :=
  (parts? x).map fun (negative, m, q) =>
    let (n, k) := shortest m q
    String.ofList ((if negative then ['-'] else []) ++ style.write n k)

end MarkupCatalog.Decimal

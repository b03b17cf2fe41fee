/-!
# Decimals

Decimal digits, and the floating-point number that is nearest to a decimal.
-/

namespace MarkupCatalog.Decimal

/-- Appends the value of a digit to a number. -/
def pushDigit (n : Nat) (c : Char) : Nat := 10 * n + (c.toNat - '0'.toNat)

def ofDigits (s : List Char) : Nat := s.foldl pushDigit 0

/-- The number nearest to `mantissa * 10 ^ exponent`. -/
def toFloat (mantissa : Nat) (exponent : Int) : Float :=
  let magnitude := exponent + (Nat.toDigits 10 mantissa).length
  if mantissa = 0 then 0
  else if magnitude > 400 then Float.ofScientific 1 false 400
  else if magnitude < -400 then 0
  else Float.ofScientific mantissa (exponent < 0) exponent.natAbs

/-- An exponent: a sign that may be missing, and digits. -/
def exponent? (s : List Char) : Option Int :=
  let (negative, digits) := match s with
    | '-' :: r => (true, r)
    | '+' :: r => (false, r)
    | r => (false, r)
  if digits.isEmpty || !digits.all Char.isDigit then none
  else
    let n : Int := ofDigits digits
    some (if negative then -n else n)

/-- The value of a decimal number: digits with a point among or beside them, and an exponent that
may be missing. -/
def parse? (s : List Char) : Option Float :=
  let (whole, r) := s.span Char.isDigit
  let (fraction, r) := match r with
    | '.' :: r => r.span Char.isDigit
    | r => ([], r)
  let exponent : Option Int := match r with
    | [] => some 0
    | e :: r => if e == 'e' || e == 'E' then exponent? r else none
  if whole.isEmpty && fraction.isEmpty then none
  else exponent.map fun e => toFloat (ofDigits (whole ++ fraction)) (e - fraction.length)

end MarkupCatalog.Decimal

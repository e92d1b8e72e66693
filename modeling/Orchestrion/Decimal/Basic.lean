import Orchestrion.Scalar

set_option autoImplicit false

/-!
# Decimal numerals

A numeral denotes exactly `mantissa * 10 ^ exponent`.  It is kept in that form
until a number is computed with, so that rounding happens once, at the end.
-/

namespace Orchestrion

/-- The number `mantissa * 10 ^ exponent`. -/
structure Decimal where
  mantissa : Nat
  exponent : Int
  deriving DecidableEq, Repr, Inhabited

namespace Decimal

/-- The value of a digit character, for the ten ASCII digits. -/
def digitValue (c : Char) : Nat := c.toNat - '0'.toNat

/-- The natural number written by a list of digits. -/
def ofDigits (digits : List Char) : Nat :=
  digits.foldl (fun n c => 10 * n + digitValue c) 0

/-- The number of decimal digits of a natural number, one for zero. -/
def digitCount (n : Nat) : Nat := (Nat.toDigits 10 n).length

/-- A numeral as a number of the arithmetic at hand. -/
def toScalar {α : Type} [Scalar α] (d : Decimal) : α :=
  OfScientific.ofScientific d.mantissa (decide (d.exponent < 0)) d.exponent.natAbs

/-- The nearest double, halves to the even neighbour.  A numeral far above or
below every double is not expanded: it is an infinity or zero. -/
def toFloat (d : Decimal) : Float :=
  if d.mantissa = 0 then 0.0
  else
    let top := d.exponent + digitCount d.mantissa
    if 400 < top then Binary64.pack false 2047 0
    else if top < -400 then 0.0
    else d.toScalar

end Decimal

end Orchestrion

import Orchestrion.Decimal.Basic

set_option autoImplicit false

/-!
# Decimal digits of a dyadic number

A positive number `num / den` is written with a given number of significant
digits (`scientific`), or with the fewest digits that still lie within a given
distance of it (`shortest`).  All of it is integer arithmetic.
-/

namespace Orchestrion.Decimal

/-- The nearest natural number to `num / den`, a half to the even neighbour. -/
def roundDiv (num den : Nat) : Nat :=
  let q := num / den
  let r := num % den
  if 2 * r < den then q
  else if den < 2 * r then q + 1
  else if q % 2 = 0 then q else q + 1

/-- The exponent `x` with `10 ^ x ≤ num / den < 10 ^ (x + 1)`. -/
def leadingExponent (num den : Nat) : Int :=
  if den ≤ num then (digitCount (num / den) : Int) - 1
  else
    -- the least `k` with `10 ^ k ≥ den / num`
    let ceiling := (den + num - 1) / num
    Int.negOfNat (digitCount (ceiling - 1))

/-- `num / den` divided by `10 ^ x`, as a fraction. -/
def scaleDown (num den : Nat) (x : Int) : Nat × Nat :=
  if 0 ≤ x then (num, den * Nat.pow 10 x.toNat) else (num * Nat.pow 10 (-x).toNat, den)

/-- `num / den` rounded to `count` significant digits: the digits as a number of
exactly `count` places, and the exponent of the first of them. -/
def scientific (count num den : Nat) : Nat × Int :=
  let x := leadingExponent num den
  let (n, d) := scaleDown num den (x - (count - 1))
  let digits := roundDiv n d
  if digits = Nat.pow 10 count then (Nat.pow 10 (count - 1), x + 1) else (digits, x)

/-! ## The fewest digits -/

/-- The numbers that round to a double: from `low` to `high`, all over `den`,
both ends included or both left out. -/
structure Interval where
  low : Nat
  high : Nat
  den : Nat
  closed : Bool

/-- Whether `k * 10 ^ x` lies in the interval. -/
def Interval.holds (i : Interval) (k : Nat) (x : Int) : Bool :=
  let (k, ten) := if 0 ≤ x then (k * Nat.pow 10 x.toNat, 1) else (k, Nat.pow 10 (-x).toNat)
  -- compare `k / ten` with `low / den` and `high / den`
  if i.closed then i.low * ten ≤ k * i.den && k * i.den ≤ i.high * ten
  else i.low * ten < k * i.den && k * i.den < i.high * ten

/-- The neighbour of `num / den` on the grid of multiples of `10 ^ x` that lies
in the interval; of two, the nearer, and the even one of two as near. -/
def onGrid? (i : Interval) (num den : Nat) (x : Int) : Option Nat :=
  let (n, d) := scaleDown num den x
  let below := n / d
  match i.holds below x, i.holds (below + 1) x with
  | true, true => some (roundDiv n d)
  | true, false => some below
  | false, true => some (below + 1)
  | false, false => none

/-- The first of the grids with `count`, `count + 1`, … digits that meets the
interval, for at most `fuel` grids; the last one tried is taken as it rounds. -/
def search (i : Interval) (num den : Nat) (leading : Int) : Nat → Nat → Nat × Int
  | count, 0 =>
    let x := leading - count
    let (n, d) := scaleDown num den x
    (roundDiv n d, x)
  | count, fuel + 1 =>
    let x := leading - count
    match onGrid? i num den x with
    | some k => (k, x)
    | none => search i num den leading (count + 1) fuel

/-- The interval of numbers that round to the positive double `m * 2 ^ e`, with
that double as a fraction over the same denominator. -/
def neighbourhood (m : Nat) (e : Int) : Nat × Interval :=
  -- in units of a quarter of the last place
  let up := Nat.pow 2 (e - 2).toNat
  let den := Nat.pow 2 (2 - e).toNat
  let below := if m = Nat.pow 2 52 ∧ -1074 < e then 1 else 2
  (4 * m * up, ⟨(4 * m - below) * up, (4 * m + 2) * up, den, m % 2 = 0⟩)

/-- The fewest digits that read back as the positive double `m * 2 ^ e`, as a
numeral without trailing zeros; of several the nearest to it.  Only the first
grid can give a trailing zero, when the next power of ten is near enough. -/
def shortest (m : Nat) (e : Int) : Decimal :=
  let (num, i) := neighbourhood m e
  let (k, x) := search i num i.den (leadingExponent num i.den) 0 17
  if k = 10 then ⟨1, x + 1⟩ else ⟨k, x⟩

end Orchestrion.Decimal

import Orchestrion.Decimal.Rounding

set_option autoImplicit false

/-!
# Written numbers

Three ways to write a double: in scientific notation with eleven places after
the point, in the fewest digits that read back, and as the sixteen hexadecimal
digits of its bit pattern.
-/

namespace Orchestrion.Decimal

/-- A natural number in decimal digits. -/
def natText (n : Nat) : String := String.ofList (Nat.toDigits 10 n)

/-- An integer in decimal digits, a minus sign in front of a negative one. -/
def intText (n : Int) : String :=
  if n < 0 then "-" ++ natText n.natAbs else natText n.natAbs

/-- Digits filled up with zeros in front to a given width. -/
def padLeft (width : Nat) (digits : List Char) : List Char :=
  List.replicate (width - digits.length) '0' ++ digits

/-- The exponent of scientific notation: a sign and at least two digits. -/
def exponentText (x : Int) : String :=
  (if x < 0 then "e-" else "e+") ++ String.ofList (padLeft 2 (Nat.toDigits 10 x.natAbs))

/-- A decoded number as a fraction. -/
def fraction (m : Nat) (e : Int) : Nat × Nat :=
  if 0 ≤ e then (m * Nat.pow 2 e.toNat, 1) else (m, Nat.pow 2 (-e).toNat)

/-- One digit, a point and `places` digits, and the exponent; zero has all its
digits zero.  Ties go to the even digit and a negative zero keeps its sign. -/
def scientificText (places : Nat) (x : Float) : String :=
  match Binary64.ofFloat x with
  | .nan => "nan"
  | .infinite negative => if negative then "-inf" else "inf"
  | .finite negative m e =>
    let sign := if negative then "-" else ""
    let (digits, top) :=
      if m = 0 then (0, 0) else
        let (num, den) := fraction m e
        scientific (places + 1) num den
    match padLeft (places + 1) (Nat.toDigits 10 digits) with
    | first :: rest =>
      sign ++ String.ofList (first :: '.' :: rest) ++ exponentText top
    | [] => sign

/-- The eleven places in which signals are reported. -/
def reportText (x : Float) : String := scientificText 11 x

/-- Digits with a point after the first `place` of them, filled up with zeros on
either side so that at least one digit stands before and after the point. -/
def positional (digits : List Char) (place : Int) : List Char :=
  if place ≤ 0 then
    '0' :: '.' :: (List.replicate (-place).toNat '0' ++ digits)
  else
    let place := place.toNat
    let before := digits.take place ++ List.replicate (place - digits.length) '0'
    let after := digits.drop place
    before ++ '.' :: (if after.isEmpty then ['0'] else after)

/-- The fewest digits that read back: positional from `1e-4` up to `1e16`, in
scientific notation outside of that. -/
def shortestText (x : Float) : String :=
  match Binary64.ofFloat x with
  | .nan => "nan"
  | .infinite negative => if negative then "-inf" else "inf"
  | .finite negative m e =>
    let sign := if negative then "-" else ""
    if m = 0 then sign ++ "0.0"
    else
      let d := shortest m e
      let digits := Nat.toDigits 10 d.mantissa
      let top : Int := d.exponent + digits.length - 1
      if -4 ≤ top ∧ top < 16 then sign ++ String.ofList (positional digits (top + 1))
      else
        match digits with
        | [only] => sign ++ String.singleton only ++ exponentText top
        | first :: rest => sign ++ String.ofList (first :: '.' :: rest) ++ exponentText top
        | [] => sign

/-! ## Hexadecimal -/

/-- The bit pattern of a double in sixteen digits; every NaN is written alike. -/
def bitsText (x : Float) : String :=
  if x.isNaN then "nan" else String.ofList (padLeft 16 (Nat.toDigits 16 x.toBits.toNat))

end Orchestrion.Decimal

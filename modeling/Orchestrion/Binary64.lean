set_option autoImplicit false

/-!
# Doubles as exact dyadic numbers

A double is decoded from its bit pattern into a sign, a natural magnitude and a
power of two, and everything that has to be exact (truncation, rounding to an
integer, the truncated remainder, rounding to single precision) is done on that
form in integer arithmetic.  `encode` is the way back; it is exact on every
number a double can hold, which is the only use made of it.
-/

namespace Orchestrion

/-- What a double denotes. -/
inductive Binary64 where
  /-- not a number -/
  | nan
  /-- an infinity and its sign -/
  | infinite (negative : Bool)
  /-- `± magnitude * 2 ^ exponent` -/
  | finite (negative : Bool) (magnitude : Nat) (exponent : Int)
  deriving DecidableEq, Repr

namespace Binary64

/-! ## Decoding and encoding -/

/-- The number a double denotes. -/
def ofFloat (x : Float) : Binary64 :=
  let bits := x.toBits
  let negative := bits >>> 63 == 1
  let field := ((bits >>> 52) &&& 0x7ff).toNat
  let fraction := (bits &&& 0xfffffffffffff).toNat
  if field = 2047 then
    if fraction = 0 then .infinite negative else .nan
  else if field = 0 then .finite negative fraction (-1074)
  else .finite negative (Nat.pow 2 52 + fraction) ((field : Int) - 1075)

/-- A double from its three fields. -/
def pack (negative : Bool) (field fraction : Nat) : Float :=
  let sign : UInt64 := if negative then 0x8000000000000000 else 0
  Float.ofBits (sign ||| (UInt64.ofNat field <<< 52) ||| UInt64.ofNat fraction)

/-- The double that stands for what is no number. -/
def quietNaN : Float := Float.ofBits 0x7ff8000000000000

/-- `± m * 2 ^ e` as a double.  Exact whenever a double holds that number; a
number out of range becomes the infinity of its sign. -/
def encode (negative : Bool) (m : Nat) (e : Int) : Float :=
  if m = 0 then pack negative 0 0
  else
    let top := e + m.log2
    if 1024 ≤ top then pack negative 2047 0
    else if -1022 ≤ top then
      let fraction := if m.log2 ≤ 52 then m <<< (52 - m.log2) else m >>> (m.log2 - 52)
      pack negative (top + 1023).toNat (fraction - Nat.pow 2 52)
    else
      let shift := e + 1074
      pack negative 0 (if 0 ≤ shift then m <<< shift.toNat else m >>> (-shift).toNat)

/-- The double that denotes a decoded number. -/
def toFloat : Binary64 → Float
  | .nan => quietNaN
  | .infinite negative => pack negative 2047 0
  | .finite negative m e => encode negative m e

/-! ## Integers near a dyadic number -/

/-- The signed numerator of `± m * 2 ^ e`. -/
def signed (negative : Bool) (m : Nat) : Int := if negative then -(m : Int) else m

/-- `n * 2 ^ e` rounded to an integer by `divide`, which is given the numerator
and a positive divisor when the number is not an integer by itself. -/
def scaledBy (divide : Int → Int → Int) (n : Int) (e : Int) : Int :=
  if 0 ≤ e then n * Nat.pow 2 e.toNat else divide n (Nat.pow 2 (-e).toNat)

/-- A quotient rounded to the nearest integer, a half to the even neighbour. -/
def divEven (n d : Int) : Int :=
  let q := Int.fdiv n d
  let r := Int.fmod n d
  if 2 * r < d then q
  else if d < 2 * r then q + 1
  else if q % 2 = 0 then q else q + 1

/-! ## The truncated remainder -/

/-- `a - n * b` for the integer `n` nearest to zero that makes the result
smaller in size than `b`; it has the sign of `a`.  `none` when `a` is infinite
or `b` is zero, which leave no such number; a NaN gives a NaN. -/
def remainder? : Binary64 → Binary64 → Option Binary64
  | .nan, _ => some .nan
  | _, .nan => some .nan
  | .infinite _, _ => none
  | .finite s m e, .infinite _ => some (.finite s m e)
  | .finite s m e, .finite _ m' e' =>
    if m' = 0 then none
    else
      let low := min e e'
      some (.finite s ((m * Nat.pow 2 (e - low).toNat) % (m' * Nat.pow 2 (e' - low).toNat)) low)

/-! ## Single precision -/

/-- A magnitude with its last `shift` binary digits rounded off, a half to the
even neighbour. -/
def roundOff (m shift : Nat) : Nat :=
  let unit := Nat.pow 2 shift
  let q := m / unit
  let r := m % unit
  if 2 * r < unit then q
  else if unit < 2 * r then q + 1
  else if q % 2 = 0 then q else q + 1

/-- The nearest number of single precision: 24 significant binary digits, none
below `2 ^ -149`, halves to the even neighbour, and an infinity from `2 ^ 128`. -/
def single : Binary64 → Binary64
  | .nan => .nan
  | .infinite s => .infinite s
  | .finite s m e =>
    if m = 0 then .finite s m e
    else
      let unit := max (e + m.log2 - 23) (-149)
      if unit ≤ e then
        if 128 ≤ e + m.log2 then .infinite s else .finite s m e
      else
        let m' := roundOff m (unit - e).toNat
        if 128 ≤ unit + m'.log2 ∧ m' ≠ 0 then .infinite s else .finite s m' unit

end Binary64

end Orchestrion

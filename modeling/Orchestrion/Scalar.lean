import Orchestrion.Binary64

set_option autoImplicit false

/-!
# The arithmetic a signal is computed in

Formulas, easing curves, envelopes, resampling and mixing are written once, over
a type of numbers with the operations below.  The synthesizer runs on doubles;
the laws of the curves and of the mix are laws of exact arithmetic, so they are
stated over other instances.

An operation that has no result on some operands says which, by a fault.
-/

namespace Orchestrion

/-- Why an arithmetic operation has no result. -/
inductive ArithFault where
  /-- a division by zero -/
  | divisionByZero
  /-- a finite operand whose result is out of range -/
  | overflow
  /-- an operand for which the operation is not defined -/
  | domain
  deriving DecidableEq, Repr, Inhabited

/-- Numbers with the operations that signals are made of. -/
class Scalar (α : Type) extends Add α, Sub α, Mul α, Div α, Neg α, OfScientific α where
  /-- strictly less -/
  lt : α → α → Bool
  /-- less or equal -/
  le : α → α → Bool
  /-- equal in value -/
  eq : α → α → Bool
  /-- the magnitude -/
  abs : α → α
  /-- one with the sign of the operand -/
  sign : α → α
  /-- half a turn -/
  pi : α
  /-- a natural power; `overflow` when a finite operand leaves the range -/
  power : α → Nat → Except ArithFault α
  /-- a power of two; `overflow` when a finite exponent leaves the range -/
  exp2 : α → Except ArithFault α
  /-- the square root; `domain` below zero -/
  sqrt : α → Except ArithFault α
  /-- the sine; `domain` at the infinities -/
  sin : α → Except ArithFault α
  /-- the cosine; `domain` at the infinities -/
  cos : α → Except ArithFault α
  /-- the truncated remainder; `domain` for an infinite left operand -/
  remainder : α → α → Except ArithFault α
  /-- an integer as a number; `overflow` when it is out of range -/
  ofInt : Int → Except ArithFault α
  /-- the integer next to a number in the direction of zero -/
  truncate : α → Except ArithFault Int
  /-- the greatest integer that is not above a number -/
  floor : α → Except ArithFault Int
  /-- the nearest integer, halves to the even neighbour -/
  nearest : α → Except ArithFault Int
  /-- the nearest number of single precision -/
  single : α → α

namespace Scalar

variable {α : Type} [Scalar α]

/-- A quotient, refused for a zero divisor. -/
def quotient (a b : α) : Except ArithFault α :=
  if Scalar.eq b 0.0 then .error .divisionByZero else .ok (a / b)

/-- The smaller of two numbers. -/
def min (a b : α) : α := if Scalar.lt b a then b else a

/-- The greater of two numbers. -/
def max (a b : α) : α := if Scalar.lt a b then b else a

/-- A number moved to the nearer end of `[low, high]` when it lies outside. -/
def clamp (low high x : α) : α := Scalar.min (Scalar.max x low) high

/-- A number that does not equal itself is none. -/
def isNaN (x : α) : Bool := !Scalar.eq x x

/-- The greatest number of single precision, `2 ^ 128 - 2 ^ 104`. -/
def singleMax : α := OfScientific.ofScientific 340282346638528859811704183484516925440 false 0

/-- Whether a number lies within the range of single precision. -/
def withinSingle (x : α) : Bool := Scalar.le (-singleMax) x && Scalar.le x singleMax

end Scalar

/-! ## Doubles -/

namespace Binary64

/-- An integer found by `divide`; a number that is none has no integer, an
infinity has none in range. -/
def toInteger (divide : Int → Int → Int) (x : Float) : Except ArithFault Int :=
  match ofFloat x with
  | .nan => .error .domain
  | .infinite _ => .error .overflow
  | .finite s m e => .ok (scaledBy divide (signed s m) e)

/-- A result that is infinite although the operand was finite is out of range. -/
def inRange (operand result : Float) : Except ArithFault Float :=
  if result.isInf && operand.isFinite then .error .overflow else .ok result

/-- A function that is not defined at the infinities. -/
def bounded (f : Float → Float) (x : Float) : Except ArithFault Float :=
  if x.isInf then .error .domain else .ok (f x)

end Binary64

open Binary64 in
instance : Scalar Float where
  lt a b := a < b
  le a b := a ≤ b
  eq a b := a == b
  abs := Float.abs
  sign x := if x.isNaN then x else if x.toBits >>> 63 == 1 then -1.0 else 1.0
  pi := 3.141592653589793
  power x n := inRange x (Float.pow x (Float.ofNat n))
  exp2 x := inRange x (Float.pow 2.0 x)
  sqrt x := if x < 0.0 then .error .domain else .ok x.sqrt
  sin := bounded Float.sin
  cos := bounded Float.cos
  remainder a b :=
    match remainder? (ofFloat a) (ofFloat b) with
    | some r => .ok r.toFloat
    | none => .error .domain
  ofInt n :=
    let x := Float.ofInt n
    if x.isInf then .error .overflow else .ok x
  truncate := toInteger Int.tdiv
  floor := toInteger Int.fdiv
  nearest := toInteger divEven
  single x := (single (ofFloat x)).toFloat

end Orchestrion

import Orchestrion.Scalar

set_option autoImplicit false

/-!
# Pitches

Pitches are numbered in half tones of equal temperament, with 440 Hz at 69.  Any
integer is a pitch; those from 0 to 127 are the ones that instruments have.
-/

namespace Orchestrion.Pitch

/-- Whether instruments have a pitch. -/
def isValid (pitch : Int) : Bool := 0 ≤ pitch && pitch ≤ 127

section

variable {α : Type} [Scalar α]

/-- The ratio of the frequencies of two pitches. -/
def ratio (target source : Int) : Except ArithFault α := do
  let halfTones ← Scalar.ofInt (target - source)
  Scalar.exp2 (halfTones / 12.0)

/-- The frequency of a pitch in Hz. -/
def frequency (pitch : Int) : Except ArithFault α := do
  let r ← ratio pitch 69
  return 440.0 * r

end

/-! ## Neighbours -/

/-- The greatest distance at which a neighbour is looked for. -/
def maxDistance : Int := 127

/-- The two pitches at a distance, the higher one first. -/
def atDistance (pitch : Int) (distance : Nat) : List Int :=
  [pitch + distance, pitch - distance]

/-- The valid pitches around a pitch, up to a distance, the nearest first and of
two as near the higher one first.  The pitch itself is not among them. -/
def around (pitch : Int) (limit : Int) : List Int :=
  (List.range limit.toNat).flatMap fun d => (atDistance pitch (d + 1)).filter isValid

end Orchestrion.Pitch

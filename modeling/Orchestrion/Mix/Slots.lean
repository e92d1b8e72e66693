import Orchestrion.Score.Note

set_option autoImplicit false

/-!
# The mix of an output

A mix is a row of slots, one for each sample.  A note is added sample by sample,
in single precision; a sum that leaves its range stays at the end of the range.
The peak is the greatest magnitude that any slot ever had.
-/

namespace Orchestrion

/-- What has been added up so far. -/
structure Mix (α : Type) where
  slots : Array α
  peak : α

namespace Mix

variable {α : Type} [Scalar α]

/-- A silent mix. -/
def silence (length : Nat) : Mix α := ⟨Array.replicate length 0.0, 0.0⟩

/-- Two samples added up in single precision. -/
def addSingle (x y : α) : α :=
  Scalar.clamp (-Scalar.singleMax) Scalar.singleMax (Scalar.single (x + y))

/-- A sample added to the slot at an index. -/
def addSample (mix : Mix α) (index : Nat) (x : α) : Mix α :=
  match mix with
  | ⟨slots, peak⟩ =>
    let sum := addSingle (slots.getD index 0.0) x
    ⟨slots.setIfInBounds index sum, Scalar.max peak (Scalar.abs sum)⟩

/-- Samples added to the slots from an index on. -/
def add (mix : Mix α) (index : Nat) : List α → Mix α
  | [] => mix
  | x :: rest => add (mix.addSample index x) (index + 1) rest

/-! ## Places of notes -/

/-- The slot at a position, or the length for a position after the last one; a
negative position counts from the end. -/
def slotOf (length : Nat) (position : Int) : Nat :=
  if position < 0 then (position + length).toNat else Nat.min position.toNat length

/-- The first slot of a note, if there are as many slots between its start and
its end as it is long. -/
def placeOf? (length : Nat) (n : Note) : Option Nat :=
  let first := slotOf length n.start
  if first + n.duration.toNat = slotOf length n.finish then some first else none

end Mix

end Orchestrion

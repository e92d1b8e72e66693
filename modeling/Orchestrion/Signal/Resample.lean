import Orchestrion.Scalar
import Orchestrion.Signal.Fault

set_option autoImplicit false

/-!
# Resampling

A clip is played at another pitch by reading it at another speed.  Sample `i` of
the result is the sample of the clip nearest to place `i * ratio`, halves up, as
long as that place is not past the last but one sample, and silence after that.
The result is in single precision and one sample shorter than the clip.
-/

namespace Orchestrion

/-- A decoded clip. -/
abbrev Clip (α : Type) := Array α

variable {α : Type} [Scalar α]

namespace Clip

/-- The sample at an index; a negative index counts from the end. -/
def at? (clip : Clip α) (index : Int) : Option α :=
  if 0 ≤ index then clip[index.toNat]?
  else if 0 ≤ index + clip.size then clip[(index + clip.size).toNat]?
  else none

/-- The index nearest to a place, halves up. -/
def nearestIndex (place : α) : Except ArithFault Int := do
  let below ← Scalar.floor place
  let floor ← Scalar.ofInt below
  return if Scalar.le 0.5 (place - floor) then below + 1 else below

/-- The sample that is heard at a place of a clip of `length + 1` samples. -/
def sampleAt (clip : Clip α) (length : Nat) (place : α) : Except Fault α :=
  match computed (Scalar.ofInt (α := α) ((length : Int) - 1)) with
  | .error fault => .error fault
  | .ok last =>
    if Scalar.le place last then
      -- a place without an index lies infinitely far before the clip
      match nearestIndex place with
      | .error _ => .error .beforeClip
      | .ok index =>
        match clip.at? index with
        | some x => .ok x
        | none => .error .beforeClip
    else .ok 0.0

/-- The samples at places `i * ratio` for the indices `i` that are left; those
found so far come last one first. -/
def resampleFrom (clip : Clip α) (ratio : α) (length : Nat) (found : List α) :
    List Nat → Except Fault (Clip α)
  | [] => .ok found.reverse.toArray
  | i :: rest =>
    match computed (Scalar.ofInt i) with
    | .error fault => .error fault
    | .ok i =>
      match clip.sampleAt length (i * ratio) with
      | .error fault => .error fault
      | .ok x => resampleFrom clip ratio length (x :: found) rest

/-- A clip at `ratio` times its frequency. -/
def resample (clip : Clip α) (ratio : α) : Except Fault (Clip α) :=
  let length := clip.size - 1
  (clip.resampleFrom ratio length [] (List.range length)).map fun out => out.map Scalar.single

end Clip

end Orchestrion

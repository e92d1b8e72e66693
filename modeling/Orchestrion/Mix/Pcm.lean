import Orchestrion.Scalar

set_option autoImplicit false

/-!
# Samples of 16 bits

A mix is scaled so that its peak becomes the greatest sample, and its places are
dropped.  A mix without a peak is silent.
-/

namespace Orchestrion.Pcm

/-- The greatest sample. -/
def maxSample : Int := 32767

variable {α : Type} [Scalar α]

/-- The greatest sample as a number. -/
def fullScale : α := 32767.0

/-- A slot scaled by the peak; a slot that is no number is silent. -/
def scaled (peak slot : α) : α :=
  let x := slot / peak * fullScale
  if Scalar.isNaN x then 0.0 else Scalar.clamp (-fullScale) fullScale x

/-- The sample of a slot. -/
def sampleOf (peak slot : α) : Int :=
  match Scalar.truncate (scaled peak slot) with
  | .ok n => n
  | .error _ => 0

/-- The samples of a mix. -/
def ofSlots (slots : Array α) (peak : α) : Array Int :=
  if Scalar.lt 0.0 peak then slots.map (sampleOf peak) else Array.replicate slots.size 0

end Orchestrion.Pcm

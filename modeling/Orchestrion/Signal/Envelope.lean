import Orchestrion.Easing.Catalog
import Orchestrion.Context
import Orchestrion.Document.Value
import Orchestrion.Signal.Fault

set_option autoImplicit false

/-!
# Envelopes

An envelope is a list of phases.  A phase covers a stretch of the note, given as
fractions of its length, and carries a value along an easing curve.  Where
phases overlap, the last one in the list counts; where there is none, the
envelope has no value.  An envelope attenuates: as a modulator it gives one
minus its value.
-/

namespace Orchestrion

/-- A stretch of a note and the values at its ends. -/
structure Span (α : Type) where
  /-- where it begins, as a fraction of the note -/
  startTime : α
  /-- where it ends, as a fraction of the note -/
  endTime : α
  startVal : α
  /-- how much the value changes over the stretch -/
  deltaVal : α
  deriving DecidableEq, Repr

/-- A stretch and the curve the value follows. -/
structure Phase (α : Type) extends Span α where
  easing : Easing
  deriving DecidableEq, Repr

/-- A named list of phases. -/
structure Envelope (α : Type) where
  name : Document.Atom
  phases : List (Phase α)

variable {α : Type} [Scalar α]

/-! ## Phases -/

namespace Span

/-- The value at the end of the stretch. -/
def endVal (s : Span α) : α := s.startVal + s.deltaVal

/-- The first and the last sample of the stretch in a note of some length; no
sample lies before the note. -/
def window (s : Span α) (duration : α) : Except ArithFault (Int × Int) := do
  let first ← Scalar.truncate (s.startTime * duration)
  let last ← Scalar.truncate (s.endTime * duration)
  return (max 0 first, max 0 last)

end Span

namespace Phase

/-- The value of a phase whose window is from `first` to `last`, at a sample of
that window; a window of one sample has the value of its end. -/
def valueIn (p : Phase α) (first last sample : Int) : Except ArithFault α :=
  if last - first = 0 then .ok p.endVal
  else do
    let t ← Scalar.ofInt (sample - first)
    let d ← Scalar.ofInt (last - first)
    p.easing.value t p.startVal p.deltaVal d

/-- The value of a phase at a sample, if the sample lies in its window. -/
def valueAt (p : Phase α) (sample : Int) (duration : α) : Except ArithFault (Option α) :=
  match p.window duration with
  | .error fault => .error fault
  | .ok (first, last) =>
    if first ≤ sample ∧ sample ≤ last then
      match p.valueIn first last sample with
      | .ok v => .ok (some v)
      | .error fault => .error fault
    else .ok none

end Phase

/-! ## Envelopes -/

namespace Envelope

/-- The phases of some stretches and the names of their curves; the first name
that the catalog does not have is given back. -/
def phasesOf : List (Span α × String) → Except String (List (Phase α))
  | [] => .ok []
  | (span, name) :: rest =>
    match Easing.find? name with
    | none => .error name
    | some easing =>
      match phasesOf rest with
      | .ok phases => .ok (⟨span, easing⟩ :: phases)
      | .error unknown => .error unknown

/-- The value of the last phase that has one at a sample, or `value` when none
has. -/
def scan (sample : Int) (duration : α) (value : Option α) :
    List (Phase α) → Except ArithFault (Option α)
  | [] => .ok value
  | p :: rest =>
    match p.valueAt sample duration with
    | .error fault => .error fault
    | .ok none => scan sample duration value rest
    | .ok (some v) => scan sample duration (some v) rest

/-- The value at a sample of a note of some length. -/
def valueAt (e : Envelope α) (sample : Int) (duration : α) : Except ArithFault (Option α) :=
  scan sample duration none e.phases

/-- The value as a modulator. -/
def modulation (e : Envelope α) (ctx : Context α) : Except Fault (Option α) :=
  match ctx.get? Context.sampleName with
  | none => .error (.missingValue Context.sampleName)
  | some sample =>
    match computed (Scalar.truncate sample) with
    | .error fault => .error fault
    | .ok sample =>
      match ctx.get? Context.durationName with
      | none => .error (.missingValue Context.durationName)
      | some duration =>
        match computed (e.valueAt sample duration) with
        | .error fault => .error fault
        | .ok value => .ok (value.map fun v => 1.0 - v)

end Envelope

end Orchestrion

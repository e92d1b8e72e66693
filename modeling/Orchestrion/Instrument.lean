import Orchestrion.Signal.Source

set_option autoImplicit false

/-!
# Instruments

An instrument is a carrier and a list of modulators.  Each modulator that has a
value `m` scales the carrier by `1 - m * depth`; one that has none leaves it as
it is.  A value that single precision cannot hold is silence.
-/

namespace Orchestrion

/-- A source that attenuates, and how much. -/
structure Modulator (α : Type) where
  source : Source α
  depth : α

/-- An instrument. -/
structure Instrument (α : Type) where
  name : Document.Value
  /-- the program that it plays -/
  program : Int
  /-- whether it is for percussion; then no program finds it -/
  percussion : Bool
  carrier : Source α
  modulators : List (Modulator α)

namespace Instrument

variable {α : Type}

/-- Whether the instrument plays a program. -/
def plays (i : Instrument α) (program : Int) : Bool := !i.percussion && i.program == program

variable [Scalar α]

/-- Prepares a note. -/
def prime (load : ClipLoader α) (i : Instrument α) (ctx : Context α) (stage : Stage α) :
    Except Fault Unit × Stage α :=
  i.carrier.prime load ctx stage

/-- A value scaled by each modulator in turn. -/
def modulate (ctx : Context α) (value : α) : List (Modulator α) → Except Fault α
  | [] => .ok value
  | m :: rest =>
    match m.source.modulation ctx with
    | .error fault => .error fault
    | .ok none => modulate ctx value rest
    | .ok (some x) => modulate ctx (value * (1.0 - x * m.depth)) rest

/-- What the carrier's value becomes; `none` when single precision cannot hold
it. -/
def shape (ctx : Context α) (value : α) (modulators : List (Modulator α)) :
    Except Fault (Option α) :=
  match modulate ctx value modulators with
  | .error fault => .error fault
  | .ok value => .ok (if Scalar.withinSingle value then some value else none)

/-- The value at one instant. -/
def sample (i : Instrument α) (ctx : Context α) (stage : Stage α) :
    Except Fault (Option α) × Stage α :=
  match i.carrier.carrier ctx stage with
  | (.error fault, stage) => (.error fault, stage)
  | (.ok none, stage) => (.ok none, stage)
  | (.ok (some value), stage) => (shape ctx value i.modulators, stage)

end Instrument

end Orchestrion

import Orchestrion.Signal.Waveform
import Orchestrion.Signal.Envelope
import Orchestrion.Signal.Bank

set_option autoImplicit false

/-!
# Sources

A source is a waveform, an envelope, or a bank.  Banks change while they are
played, so a source refers to its bank by a place in the rack of banks that is
handed from note to note on a `Stage`.
-/

namespace Orchestrion

/-- A source of signal. -/
inductive Source (α : Type) where
  | waveform (w : Waveform)
  | envelope (e : Envelope α)
  /-- the bank at a place of the rack -/
  | bank (slot : Nat)

/-- The banks as they are now, and what has happened. -/
structure Stage (α : Type) where
  rack : List (Bank α)
  /-- the events, the first one first -/
  trace : List Event

namespace Stage

variable {α : Type}

/-- A stage on which nothing has happened. -/
def ofRack (rack : List (Bank α)) : Stage α := ⟨rack, []⟩

/-- A bank put back into its place. -/
def setBank (stage : Stage α) (slot : Nat) (b : Bank α) : Stage α :=
  { stage with rack := stage.rack.set slot b }

/-- Events added to the trace. -/
def tell (stage : Stage α) (trace : List Event) : Stage α :=
  { stage with trace := stage.trace ++ trace }

end Stage

namespace Source

variable {α : Type}

/-- The name of the kind of a source. -/
def kind : Source α → String
  | .waveform _ => "waveform"
  | .envelope _ => "envelope"
  | .bank _ => "sample_bank"

/-- The name of a source. -/
def name (rack : List (Bank α)) : Source α → Option Document.Atom
  | .waveform w => some w.name
  | .envelope e => some e.name
  | .bank slot => rack[slot]?.map Bank.name

variable [Scalar α]

/-- Prepares a note: only a bank has to. -/
def prime (load : ClipLoader α) (ctx : Context α) (stage : Stage α) :
    Source α → Except Fault Unit × Stage α
  | .bank slot =>
    match stage.rack[slot]? with
    | none => (.ok (), stage)
    | some b =>
      match b.primeIn load ctx with
      | (result, b, trace) => (result, (stage.setBank slot b).tell trace)
  | _ => (.ok (), stage)

/-- The value as a carrier.  An envelope has none. -/
def carrier (ctx : Context α) (stage : Stage α) :
    Source α → Except Fault (Option α) × Stage α
  | .waveform w => (.ok (w.carrier ctx), stage)
  | .envelope _ => (.ok none, stage)
  | .bank slot =>
    match stage.rack[slot]? with
    | none => (.ok none, stage)
    | some b =>
      match b.carrier ctx with
      | (result, b) => (result, stage.setBank slot b)

/-- The value as a modulator.  A bank has none. -/
def modulation (ctx : Context α) : Source α → Except Fault (Option α)
  | .waveform w => .ok (w.modulation ctx)
  | .envelope e => e.modulation ctx
  | .bank _ => .ok none

end Source

end Orchestrion

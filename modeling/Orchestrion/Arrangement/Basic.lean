import Orchestrion.Instrument

set_option autoImplicit false

/-!
# Arrangements

An arrangement says which instrument plays a program, and on which output the
notes of a channel are heard.
-/

namespace Orchestrion

/-- An output: a file, and the channels that are heard in it. -/
structure OutputBus where
  name : String
  outputFile : String
  channels : List Int
  deriving DecidableEq, Repr, Inhabited

/-- Whether a channel is heard on an output. -/
def OutputBus.routes (bus : OutputBus) (channel : Int) : Bool := bus.channels.contains channel

/-- Values under the names that a document gives them, in the order in which the
names first appear. -/
abbrev Table (β : Type) := List (Document.Atom × β)

/-- Instruments and outputs with everything they refer to. -/
structure Arrangement (α : Type) where
  sampleRate : Int
  /-- whether a note that no instrument plays is a fault -/
  strict : Bool
  /-- the path of the score -/
  inputFile : Option String
  comments : String
  banks : Table (Bank α)
  waveforms : Table Waveform
  envelopes : Table (Envelope α)
  instruments : List (Instrument α)
  outputs : List OutputBus

namespace Arrangement

variable {α : Type}

/-- The first instrument that plays a program. -/
def findInstrument (a : Arrangement α) (program : Int) : Option (Instrument α) :=
  a.instruments.find? fun i => i.plays program

/-- The banks as they are before anything is played. -/
def rack (a : Arrangement α) : List (Bank α) := a.banks.map Prod.snd

end Arrangement

end Orchestrion

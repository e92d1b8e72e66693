import Orchestrion.Pitch

set_option autoImplicit false

/-!
# Notes

A note is timed in samples of the output.  Messages are timed in seconds since
the message before.
-/

namespace Orchestrion

/-- A note that has begun and ended. -/
structure Note where
  channel : Int
  /-- the program of the channel when the note began -/
  program : Int
  /-- the first sample -/
  start : Int
  /-- the sample after the last one -/
  finish : Int
  pitch : Int
  velocity : Int
  deriving DecidableEq, Repr, Inhabited

namespace Note

/-- The length of a note in samples. -/
def duration (n : Note) : Int := n.finish - n.start

/-- The frequency of a note in Hz. -/
def frequency {α : Type} [Scalar α] (n : Note) : Except ArithFault α := Pitch.frequency n.pitch

end Note

/-- What a message says. -/
inductive Message where
  | noteOn (channel pitch velocity : Int)
  | noteOff (channel pitch velocity : Int)
  | programChange (channel program : Int)
  /-- anything that does not concern notes -/
  | other
  deriving DecidableEq, Repr, Inhabited

/-- A message and the seconds since the message before. -/
structure TimedMessage (α : Type) where
  delta : α
  message : Message
  deriving DecidableEq, Repr

end Orchestrion

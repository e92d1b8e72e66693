import Orchestrion.Score.Note

set_option autoImplicit false

/-!
# Standard MIDI files

A file is a row of tracks, a track a row of events, each with the ticks since
the event before.  How long a tick lasts depends on the tempo.
-/

namespace Orchestrion.Midi

/-- What happens at one time. -/
inductive Event where
  | message (m : Message)
  /-- a new tempo, in microseconds for each beat -/
  | tempo (beat : Nat)
  | endOfTrack
  deriving DecidableEq, Repr

/-- An event and the ticks since the event before. -/
structure TimedEvent where
  ticks : Nat
  event : Event
  deriving DecidableEq, Repr

/-- The events of a track in order. -/
abbrev Track := List TimedEvent

/-- A file. -/
structure File where
  /-- how the tracks belong together -/
  format : Int
  ticksPerBeat : Int
  tracks : List Track
  deriving DecidableEq, Repr

/-- The format whose tracks are pieces of their own. -/
def separateTracks : Int := 2

/-- Why no notes are read. -/
inductive Fault where
  /-- no file, or one that is not written as it has to be -/
  | unreadable
  /-- an event with fewer bytes than its kind needs -/
  | shortEvent
  /-- a key that there is not -/
  | unknownKey
  /-- tracks that are not played together -/
  | separateTracks
  /-- a time that cannot be computed -/
  | arithmetic (fault : ArithFault)
  deriving DecidableEq, Repr

/-- What is said about a file that is not read. -/
def unreadableMessage (path : String) : String := "Failed to read MIDI file " ++ path

end Orchestrion.Midi

import Orchestrion.Midi.Event

set_option autoImplicit false

/-!
# From ticks to seconds

The tracks of a file are played together.  Their events are brought into the
order of time; of events at one time those of an earlier track come first.  One
tempo counts for all tracks, from the event after the one that sets it.
-/

namespace Orchestrion.Midi

/-- The events of a track with the ticks since its start. -/
def absolute (now : Nat) : Track → List TimedEvent
  | [] => []
  | e :: rest => ⟨now + e.ticks, e.event⟩ :: absolute (now + e.ticks) rest

/-- The events of all tracks in the order of time. -/
def merged (tracks : List Track) : List TimedEvent :=
  (tracks.flatMap (absolute 0)).mergeSort fun e f => e.ticks ≤ f.ticks

/-- The events with the ticks since the event before.  The ends of tracks are
left out, but for one at the very end. -/
def relative (last now : Nat) : List TimedEvent → List TimedEvent
  | [] => [⟨now - last, .endOfTrack⟩]
  | e :: rest =>
    match e.event with
    | .endOfTrack => relative last e.ticks rest
    | event => ⟨e.ticks - last, event⟩ :: relative e.ticks e.ticks rest

/-- The microseconds of a beat before a tempo is set. -/
def initialTempo : Nat := 500000

variable {α : Type} [Scalar α]

/-- The seconds of some ticks. -/
def secondsOf (tempo : Nat) (ticksPerBeat : Int) (ticks : Nat) : Except ArithFault α :=
  if ticks = 0 then .ok 0.0
  else do
    let tempo : α ← Scalar.ofInt tempo
    let beat : α ← Scalar.ofInt ticksPerBeat
    let tick ← Scalar.quotient (tempo * 1e-6) beat
    let ticks : α ← Scalar.ofInt ticks
    return ticks * tick

/-- What an event says about notes. -/
def Event.toMessage : Event → Message
  | .message m => m
  | _ => .other

/-- The tempo after an event. -/
def Event.tempoAfter (tempo : Nat) : Event → Nat
  | .tempo beat => beat
  | _ => tempo

/-- The messages of some events with the seconds since the message before, up to the
first one whose time cannot be computed, and why it cannot. -/
def messagesFrom (ticksPerBeat : Int) (tempo : Nat) :
    List TimedEvent → List (TimedMessage α) × Option ArithFault
  | [] => ([], none)
  | e :: rest =>
    match secondsOf tempo ticksPerBeat e.ticks with
    | .error fault => ([], some fault)
    | .ok delta =>
      let (messages, stop) := messagesFrom ticksPerBeat (e.event.tempoAfter tempo) rest
      (⟨delta, e.event.toMessage⟩ :: messages, stop)

/-- The messages of a file, and why there are no more of them. -/
def File.messages (file : File) : Except Fault (List (TimedMessage α) × Option ArithFault) :=
  if file.format = separateTracks then .error .separateTracks
  else .ok (messagesFrom file.ticksPerBeat initialTempo (relative 0 0 (merged file.tracks)))

end Orchestrion.Midi

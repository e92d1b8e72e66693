import Orchestrion.Score.Note
import Orchestrion.Signal.Fault

set_option autoImplicit false

/-!
# From messages to notes

The beginning and the end of a note are two messages of one channel and pitch.
An end belongs to the latest beginning that has none yet.  Times are added up in
seconds and rounded to samples at each message.
-/

namespace Orchestrion.Score

/-- A note that has begun. -/
structure OpenNote where
  channel : Int
  pitch : Int
  program : Int
  velocity : Int
  start : Int
  deriving DecidableEq, Repr

/-- What is known between two messages. -/
structure State (α : Type) where
  /-- seconds since the start -/
  seconds : α
  /-- the programs chosen so far, the latest choice first -/
  programs : List (Int × Int)
  /-- the notes that have begun, the latest first -/
  playing : List OpenNote
  /-- the notes that have ended, the latest first -/
  finished : List Note
  /-- the warnings, the latest first -/
  warnings : List Warning

/-- What a message does to the notes of its channel and pitch. -/
inductive Role where
  /-- a note begins -/
  | opening (channel pitch velocity : Int)
  /-- a note ends -/
  | closing (channel pitch : Int)
  /-- a program is chosen -/
  | choice (channel program : Int)
  | unrelated
  deriving DecidableEq, Repr

/-- The role of a message: a beginning without velocity is an end. -/
def Role.of : Message → Role
  | .noteOn channel pitch velocity =>
    if 0 < velocity then .opening channel pitch velocity
    else if velocity = 0 then .closing channel pitch
    else .unrelated
  | .noteOff channel pitch _ => .closing channel pitch
  | .programChange channel program => .choice channel program
  | .other => .unrelated

/-- Whether a note that has begun is of a channel and pitch. -/
def OpenNote.isOf (channel pitch : Int) (n : OpenNote) : Bool :=
  n.channel == channel && n.pitch == pitch

/-- The note that a beginning and its end make. -/
def OpenNote.finish (n : OpenNote) (now : Int) : Note :=
  ⟨n.channel, n.program, n.start, now, n.pitch, n.velocity⟩

variable {α : Type}

/-- The program of a channel; zero until one is chosen. -/
def State.programOf (s : State α) (channel : Int) : Int := (List.lookup channel s.programs).getD 0

/-- What a message of some role at sample `now` leads to. -/
def State.play (s : State α) (now : Int) : Role → State α
  | .unrelated => s
  | .choice channel program => { s with programs := (channel, program) :: s.programs }
  | .opening channel pitch velocity =>
    { s with playing := ⟨channel, pitch, s.programOf channel, velocity, now⟩ :: s.playing }
  | .closing channel pitch =>
    match s.playing.find? (OpenNote.isOf channel pitch) with
    | none => { s with warnings := .unmatchedEnd pitch channel :: s.warnings }
    | some n =>
      { s with
        playing := s.playing.eraseP (OpenNote.isOf channel pitch)
        finished := n.finish now :: s.finished }

variable [Scalar α]

/-- The sample nearest to a time, halves to the even neighbour. -/
def samplesOf (seconds : α) (rate : Int) : Except ArithFault Int := do
  let rate ← Scalar.ofInt rate
  Scalar.nearest (seconds * rate)

/-- The start of a score. -/
def State.initial : State α := ⟨0.0, [], [], [], []⟩

/-- Every message in turn. -/
def play (rate : Int) (s : State α) : List (TimedMessage α) → Except ArithFault (State α)
  | [] => .ok s
  | m :: rest =>
    let seconds := s.seconds + m.delta
    match samplesOf seconds rate with
    | .error fault => .error fault
    | .ok now => play rate ({ s with seconds := seconds }.play now (Role.of m.message)) rest

/-- The notes of a list of messages in the order of their ends, and what is to
be warned of. -/
def notes (messages : List (TimedMessage α)) (rate : Int) :
    Except ArithFault (List Note × List Warning) :=
  match play rate State.initial messages with
  | .error fault => .error fault
  | .ok s =>
    let left := if s.playing.isEmpty then [] else [Warning.unendedNotes s.playing.length]
    .ok (s.finished.reverse, s.warnings.reverse ++ left)

end Orchestrion.Score

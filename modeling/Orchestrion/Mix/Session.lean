import Orchestrion.Arrangement.Basic
import Orchestrion.Mix.Pcm
import Orchestrion.Mix.Slots

set_option autoImplicit false

/-!
# Rendering notes

A session plays notes on an arrangement.  Each output is the mix of the notes on
its channels: a note is prepared, evaluated sample by sample and added to the
slots between its start and its end.  The banks of the arrangement, with the
clips they have kept, are handed on from note to note and from output to output.
-/

namespace Orchestrion

/-- How notes are played. -/
structure Session (α : Type) where
  arrangement : Arrangement α
  load : ClipLoader α
  sampleRate : Int
  /-- whether a note that no instrument plays is a fault -/
  strict : Bool

/-- What has become of an output. -/
structure Take (α : Type) where
  bus : OutputBus
  samples : Array Int
  peak : α
  rendered : Nat
  skipped : Nat

namespace Session

variable {α : Type}

/-- A session as the arrangement asks for it. -/
def ofArrangement (a : Arrangement α) (load : ClipLoader α) : Session α :=
  ⟨a, load, a.sampleRate, a.strict⟩

variable [Scalar α]

/-! ## One note -/

/-- One sample of a note, in single precision; where the instrument has no value
there is silence. -/
def sampleAt (s : Session α) (i : Instrument α) (n : Note) (frequency : α) (stage : Stage α)
    (index : Nat) : Except Fault α × Stage α :=
  match computed (Context.ofSample index n.duration n.pitch frequency s.sampleRate) with
  | .error fault => (.error fault, stage)
  | .ok ctx =>
    match i.sample ctx stage with
    | (.error fault, stage) => (.error fault, stage)
    | (.ok none, stage) => (.ok 0.0, stage)
    | (.ok (some x), stage) => (.ok (Scalar.single x), stage)

/-- The samples of a note at the indices that are left; those found so far come
last one first. -/
def samplesFrom (s : Session α) (i : Instrument α) (n : Note) (frequency : α) (stage : Stage α)
    (found : List α) : List Nat → Except Fault (List α) × Stage α
  | [] => (.ok found.reverse, stage)
  | index :: rest =>
    match s.sampleAt i n frequency stage index with
    | (.error fault, stage) => (.error fault, stage)
    | (.ok x, stage) => s.samplesFrom i n frequency stage (x :: found) rest

/-- The samples of a note on an instrument. -/
def renderNote (s : Session α) (i : Instrument α) (n : Note) (stage : Stage α) :
    Except Fault (List α) × Stage α :=
  match computed (Context.ofPitch n.pitch) with
  | .error fault => (.error fault, stage)
  | .ok ctx =>
    match i.prime s.load ctx stage with
    | (.error fault, stage) => (.error fault, stage)
    | (.ok (), stage) =>
      match computed n.frequency with
      | .error fault => (.error fault, stage)
      | .ok frequency =>
        s.samplesFrom i n frequency stage [] (List.range n.duration.toNat)

/-! ## One output -/

/-- An output that is being mixed. -/
structure Desk (α : Type) where
  mix : Mix α
  rendered : Nat
  skipped : Nat

/-- A note added to an output. -/
def addNote (s : Session α) (desk : Desk α) (n : Note) (stage : Stage α) :
    Except Fault (Desk α) × Stage α :=
  match s.arrangement.findInstrument n.program with
  | none =>
    if s.strict then (.error (.missingInstrument n.program), stage)
    else
      (.ok { desk with skipped := desk.skipped + 1 },
        stage.tell [.warning (.skippedNote n.pitch n.start n.program)])
  | some i =>
    if n.duration ≤ 0 then (.ok desk, stage)
    else
      match s.renderNote i n stage with
      | (.error fault, stage) => (.error fault, stage)
      | (.ok samples, stage) =>
        match desk with
        | ⟨mix, rendered, skipped⟩ =>
          match Mix.placeOf? mix.slots.size n with
          | none => (.error .misplaced, stage)
          | some first => (.ok ⟨mix.add first samples, rendered + 1, skipped⟩, stage)

/-- Notes added to an output, one after the other. -/
def addNotes (s : Session α) (desk : Desk α) (stage : Stage α) :
    List Note → Except Fault (Desk α) × Stage α
  | [] => (.ok desk, stage)
  | n :: rest =>
    match s.addNote desk n stage with
    | (.error fault, stage) => (.error fault, stage)
    | (.ok desk, stage) => s.addNotes desk stage rest

/-- The greatest end of some notes; zero if there is none. -/
def lastEnd : List Note → Int
  | [] => 0
  | n :: rest => rest.foldl (fun latest n => Max.max latest n.finish) n.finish

/-- Everything that is heard on an output. -/
def renderBus (s : Session α) (notes : List Note) (bus : OutputBus) (stage : Stage α) :
    Except Fault (Take α) × Stage α :=
  let routed := notes.filter fun n => bus.routes n.channel
  let length := lastEnd routed
  if length < 0 then (.error .negativeLength, stage)
  else
    match s.addNotes ⟨.silence length.toNat, 0, 0⟩ stage routed with
    | (.error fault, stage) => (.error fault, stage)
    | (.ok desk, stage) =>
      (.ok ⟨bus, Pcm.ofSlots desk.mix.slots desk.mix.peak, desk.mix.peak, desk.rendered,
        desk.skipped⟩, stage)

/-! ## All outputs -/

/-- Some outputs, one after the other, until one fails. -/
def renderEach (s : Session α) (notes : List Note) (stage : Stage α) :
    List OutputBus → Except Fault (List (Take α)) × Stage α
  | [] => (.ok [], stage)
  | bus :: rest =>
    match s.renderBus notes bus stage with
    | (.error fault, stage) => (.error fault, stage)
    | (.ok take, stage) =>
      match s.renderEach notes stage rest with
      | (.error fault, stage) => (.error fault, stage)
      | (.ok takes, stage) => (.ok (take :: takes), stage)

/-- Sets the samples of a name: in place where the name is, at the end otherwise. -/
def putSamples (table : List (String × Array Int)) (name : String) (samples : Array Int) :
    List (String × Array Int) :=
  match table with
  | [] => [(name, samples)]
  | (other, old) :: rest =>
    if other = name then (other, samples) :: rest
    else (other, old) :: putSamples rest name samples

/-- The samples of every output under its name; of outputs of one name the last
one stays. -/
def renderAll (s : Session α) (notes : List Note) (stage : Stage α) :
    Except Fault (List (String × Array Int)) × Stage α :=
  match s.renderEach notes stage s.arrangement.outputs with
  | (.error fault, stage) => (.error fault, stage)
  | (.ok takes, stage) =>
    (.ok (takes.foldl (fun table take => putSamples table take.bus.name take.samples) []), stage)

end Session

end Orchestrion

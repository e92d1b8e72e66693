import Orchestrion.Scalar

set_option autoImplicit false

/-!
# Named values of one instant

A signal is evaluated in a context: a list of named numbers.  While a note
sounds, each of its samples has a context of six (`ofSample`); before it sounds,
its sources are prepared in a context of one (`ofPitch`).
-/

namespace Orchestrion

/-- Named numbers; the first of a name counts. -/
abbrev Context (α : Type) := List (String × α)

namespace Context

variable {α : Type}

/-- The number of a given name. -/
def get? (ctx : Context α) (name : String) : Option α := List.lookup name ctx

/-! ## Names -/

/-- the length of the note in samples -/
def durationName : String := "duration"

/-- the index of the sample in the note -/
def sampleName : String := "sample"

/-- the time since the note began, in seconds -/
def timeName : String := "time"

/-- the number of samples in a second -/
def rateName : String := "rate"

/-- the pitch of the note -/
def pitchName : String := "midi_note"

/-- the number of periods since the note began -/
def phaseName : String := "x"

/-- The names of a sample's context. -/
def sampleNames : List String :=
  [durationName, sampleName, timeName, rateName, pitchName, phaseName]

/-! ## Contexts of a note -/

variable [Scalar α]

/-- The context of one sample of a note. -/
def ofSample (sample duration pitch : Int) (frequency : α) (rate : Int) :
    Except ArithFault (Context α) := do
  let rate ← Scalar.ofInt rate
  let duration ← Scalar.ofInt duration
  let sample ← Scalar.ofInt sample
  let time ← Scalar.quotient sample rate
  let pitch ← Scalar.ofInt pitch
  let phase ← Scalar.quotient (sample * frequency) rate
  return [(durationName, duration), (sampleName, sample), (timeName, time), (rateName, rate),
    (pitchName, pitch), (phaseName, phase)]

/-- The context in which the sources of a note are prepared. -/
def ofPitch (pitch : Int) : Except ArithFault (Context α) := do
  let pitch ← Scalar.ofInt pitch
  return [(pitchName, pitch)]

end Context

end Orchestrion

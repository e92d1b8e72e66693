import Orchestrion.Arrangement.Basic
import Orchestrion.Arrangement.Fault
import Orchestrion.Files.Path

set_option autoImplicit false

/-!
# From a document to an arrangement

The sections of a document are worked through in a fixed order: metadata, sample
banks, waveforms, envelopes, instruments, outputs.  The first fault ends the
work.  Names are looked up in the sections before, so that the result refers to
nothing that is not there.

A section that is missing, null, false, zero or empty is an empty section.
-/

namespace Orchestrion.Build

open Document (Value Atom NumberFault)

/-! ## Parts of a document -/

/-- A fault that is explained to the author. -/
def reject {β : Type} (fault : ConfigFault) : Except BuildFault β := .error (.config fault)

/-- A number, or the fault that tells why it is none; a number out of range is
not explained. -/
def number {β : Type} (explain : NumberFault → ConfigFault) :
    Except NumberFault β → Except BuildFault β
  | .ok b => .ok b
  | .error .tooLarge => .error .tooLarge
  | .error fault => reject (explain fault)

/-- The entries of a mapping. -/
def mapping (v : Value) (place : Place) : Except BuildFault (List (Atom × Value)) :=
  match v with
  | .map entries => .ok entries
  | v => reject (.notMapping place v.typeName)

/-- The entry of a mapping that has to be there. -/
def require (v : Value) (key : String) (place : Place) : Except BuildFault Value :=
  match mapping v place with
  | .error fault => .error fault
  | .ok entries =>
    match Document.field? entries key with
    | some entry => .ok entry
    | none => reject (.missingKey place key)

/-- The entry of a mapping that may be left out. -/
def optional (v : Value) (key : String) : Option Value :=
  match v with
  | .map entries => Document.field? entries key
  | _ => none

/-- The items of a section. -/
def section? (v : Option Value) : Except BuildFault (List Value) :=
  match v with
  | none => .ok []
  | some v =>
    if v.isTrue then
      match v.items? with
      | some items => .ok items
      | none => .error (.kind .noItems)
    else .ok []

/-- A name: something that can be a key. -/
def name (v : Value) : Except BuildFault Atom :=
  match v with
  | .atom a => .ok a
  | _ => .error (.kind .noName)

/-- A path seen from a directory. -/
def resolve (base : Path) (v : Value) : Except BuildFault String :=
  match v with
  | .atom (.text s) => .ok (base.join (.ofText s)).text
  | _ => .error (.kind .noPath)

/-- The results of a step on each item in turn. -/
def each {γ β : Type} (f : γ → Except BuildFault β) : List γ → Except BuildFault (List β)
  | [] => .ok []
  | x :: rest =>
    match f x with
    | .error fault => .error fault
    | .ok b =>
      match each f rest with
      | .error fault => .error fault
      | .ok bs => .ok (b :: bs)

/-- A table of the named results of a step on each item in turn; a later result
of the same name replaces an earlier one. -/
def tabulate {β : Type} (f : Value → Except BuildFault (Atom × β)) (table : Table β) :
    List Value → Except BuildFault (Table β)
  | [] => .ok table
  | v :: rest =>
    match f v with
    | .error fault => .error fault
    | .ok (a, b) => tabulate f (Document.put table a b) rest

/-! ## Sample banks -/

/-- The paths of a bank's files, under their keys. -/
def clipPaths (base : Path) (files : List (Atom × Value)) :
    Except BuildFault (List (Atom × String)) :=
  each (fun (key, v) =>
    match resolve base v with
    | .ok path => .ok (key, path)
    | .error fault => .error fault) files

/-- Why the files of a bank are none. -/
def pitchFault (bank : Value) : PitchKeyFault → BuildFault
  | .noNumber => .kind .noPitch
  | .malformed s => .config (.pitchNotNumeral bank s)
  | .tooLarge => .tooLarge
  | .broken key => .config (.pitchBroken bank key)

/-- A bank from its entry. -/
def bank (base : Path) (limit : Option Int) (entry : Value) :
    Except BuildFault (Atom × Bank Float) := do
  let label ← require entry "name" .bank
  let files ← require entry "files" (.bankNamed label)
  match files with
  | .map files =>
    let paths ← clipPaths base files
    match Bank.filesOf [] paths with
    | .error fault => .error (pitchFault label fault)
    | .ok files =>
      let a ← name label
      return (a, ⟨a, files, .empty limit⟩)
  | _ => reject (.filesNotMapping label)

/-! ## Waveforms -/

/-- A waveform from its entry. -/
def waveform (entry : Value) : Except BuildFault (Atom × Waveform) := do
  let label ← require entry "name" .waveform
  let equation ← require entry "equation" (.waveformNamed label)
  match Formula.parse equation.shown with
  | .error fault => reject (.badEquation label equation fault)
  | .ok formula =>
    let a ← name label
    return (a, ⟨a, equation.shown, formula⟩)

/-! ## Envelopes -/

/-- Whether a value that is no mapping holds a word: a list as an item, a text
as a part of it. -/
def holds? (v : Value) (word : String) : Option Bool :=
  match v with
  | .list items => some (items.any fun item =>
      match item with
      | .atom (.text s) => s == word
      | _ => false)
  | .atom (.text s) => some (s.contains word)
  | _ => none

/-- The change of value over a phase: `delta_val`, or `end_val`, which is an
older name for it. -/
def phaseDelta (v : Value) (place : Place) : Except BuildFault Value :=
  match v with
  | .map entries =>
    match Document.field? entries "delta_val" with
    | some delta => .ok delta
    | none => require v "end_val" place
  | v =>
    match holds? v "delta_val" with
    | some false => require v "end_val" place
    | _ => .error (.kind .noPhase)

/-- A phase from its value, with the name of its curve. -/
def phase (envelope : Value) (index : Nat) (v : Value) :
    Except BuildFault (Span Float × String) := do
  let place := Place.phase envelope index
  let real (v : Value) : Except BuildFault Float := number (.badPhase envelope index) v.toReal
  let delta ← phaseDelta v place
  let startTime ← real (← require v "start_time" place)
  let endTime ← real (← require v "end_time" place)
  let startVal ← real (← require v "start_val" place)
  let deltaVal ← real delta
  let easing := (optional v "ease_fn").elim Easing.straight.name Value.shown
  return (⟨startTime, endTime, startVal, deltaVal⟩, easing)

/-- The phases of an envelope, from an index on. -/
def phasesFrom (envelope : Value) (index : Nat) :
    List Value → Except BuildFault (List (Span Float × String))
  | [] => .ok []
  | v :: rest => do
    let p ← phase envelope index v
    let ps ← phasesFrom envelope (index + 1) rest
    return p :: ps

/-- An envelope from its entry. -/
def envelope (entry : Value) : Except BuildFault (Atom × Envelope Float) := do
  let label ← require entry "name" .envelope
  let phases ← require entry "phases" (.envelopeNamed label)
  match phases.items? with
  | none => .error (.kind .noItems)
  | some items =>
    let spans ← phasesFrom label 0 items
    match Envelope.phasesOf spans with
    | .error unknown => reject (.unknownEasing label unknown)
    | .ok phases =>
      let a ← name label
      return (a, ⟨a, phases⟩)

/-! ## Instruments -/

/-- The sources that a document has named. -/
structure Sources where
  banks : Table (Bank Float)
  waveforms : Table Waveform
  envelopes : Table (Envelope Float)

/-- The place of a key in a table. -/
def slot? {β : Type} (table : Table β) (key : Document.Key) : Option Nat :=
  table.findIdx? fun entry => entry.1.key = key

/-- The carrier of a name: a bank, or else a waveform. -/
def Sources.carrier? (s : Sources) (key : Document.Key) : Option (Source Float) :=
  match slot? s.banks key with
  | some slot => some (.bank slot)
  | none => (Document.find? s.waveforms key).map Source.waveform

/-- The modulator of a name: a waveform, or else an envelope. -/
def Sources.modulator? (s : Sources) (key : Document.Key) : Option (Source Float) :=
  match Document.find? s.waveforms key with
  | some w => some (.waveform w)
  | none => (Document.find? s.envelopes key).map Source.envelope

/-- A modulator of an instrument from its entry. -/
def modulator (sources : Sources) (instrument entry : Value) :
    Except BuildFault (Modulator Float) := do
  let label ← require entry "modulator" (.modulatorOf instrument)
  let a ← name label
  match sources.modulator? a.key with
  | none => reject (.unknownModulator instrument label)
  | some source =>
    let depth ←
      match optional entry "depth" with
      | none => pure 1.0
      | some v => number (.badDepth instrument label) v.toReal
    return ⟨source, depth⟩

/-- An instrument from its entry. -/
def instrument (sources : Sources) (entry : Value) : Except BuildFault (Instrument Float) := do
  let label ← require entry "name" .instrument
  let carrierLabel ← require entry "carrier" (.instrumentNamed label)
  let a ← name carrierLabel
  match sources.carrier? a.key with
  | none => reject (.unknownCarrier label carrierLabel)
  | some carrier =>
    let entries ← section? (optional entry "am")
    let modulators ← each (modulator sources label) entries
    let program ← require entry "midi_inst" (.instrumentNamed label)
    let program ← number (.badProgram label) program.toInteger
    let percussion := (optional entry "midi_percussion").elim false Value.isTrue
    return ⟨label, program, percussion, carrier, modulators⟩

/-! ## Outputs -/

/-- The channels of an output. -/
def channels (file : String) (v : Value) : Except BuildFault (List Int) :=
  match v.items? with
  | none => reject (.badChannels file (.noItems v.typeName))
  | some items =>
    each (fun item => number (fun f => .badChannels file (.item f)) item.toInteger) items

/-- An output from its entry. -/
def output (entry : Value) : Except BuildFault OutputBus := do
  let file ← require entry "output_file" .output
  let file := file.shown
  let routed ← require entry "channels" (.outputTo file)
  let routed ← channels file routed
  let label := (optional entry "name").elim file Value.shown
  return ⟨label, file, routed⟩

/-! ## Arrangements -/

/-- The sample rate when a document gives none. -/
def defaultSampleRate : Int := 44100

/-- What a document says about itself. -/
structure Metadata where
  sampleRate : Int
  strict : Bool
  inputFile : Option String
  comments : String

/-- The metadata of a document. -/
def metadata (base : Path) (v : Option Value) : Except BuildFault Metadata := do
  let v := v.getD (.map [])
  let v := if v.isTrue then v else .map []
  match v with
  | .map _ =>
    let sampleRate ←
      match optional v "sample_rate" with
      | none => pure defaultSampleRate
      | some rate => number .badMetadata rate.toInteger
    let strict := (optional v "strict").elim true Value.isTrue
    let inputFile ←
      match optional v "input_file" with
      | none => pure none
      | some (.atom .null) => pure none
      | some file => do
        let path ← resolve base file
        pure (some path)
    let comments := (optional v "comments").elim "" Value.shown
    return ⟨sampleRate, strict, inputFile, comments⟩
  | _ => reject .metadataNotMapping

/-- The arrangement of a document whose relative paths are seen from a
directory, with a limit to the clips that each bank keeps. -/
def arrangement (base : Path) (limit : Option Int) (document : Value) :
    Except BuildFault (Arrangement Float) := do
  match document with
  | .map entries =>
    let part (key : String) : Option Value := Document.field? entries key
    let meta_ ← metadata base (part "metadata")
    let banks ← tabulate (bank base limit) [] (← section? (part "sample_banks"))
    let waveforms ← tabulate waveform [] (← section? (part "waveforms"))
    let envelopes ← tabulate envelope [] (← section? (part "envelopes"))
    let sources : Sources := ⟨banks, waveforms, envelopes⟩
    let instruments ← each (instrument sources) (← section? (part "instruments"))
    let outputs ← each output (← section? (part "outputs"))
    return {
      sampleRate := meta_.sampleRate
      strict := meta_.strict
      inputFile := meta_.inputFile
      comments := meta_.comments
      banks, waveforms, envelopes, instruments, outputs }
  | _ => .error .noDocument

end Orchestrion.Build

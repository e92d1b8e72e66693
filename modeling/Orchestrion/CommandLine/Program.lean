import Orchestrion.CommandLine.Options
import Orchestrion.CommandLine.Script
import Orchestrion.Midi.Score
import Orchestrion.Mix.Session

set_option autoImplicit false

/-!
# The program

The program loads an arrangement, reads the notes of a score, and renders the
outputs one after the other, each into its own file.  It stops at the first
failure; the files written before it stay.
-/

namespace Orchestrion.CommandLine

/-! ## What is told -/

/-- The line at the beginning of a step. -/
def stepLine (step : Nat) (text : String) : String :=
  "[" ++ Decimal.natText step ++ "/3] " ++ text

/-- A line with a remark. -/
def infoLine (text : String) : String := "ℹ  " ++ text

/-- A line about something that is done. -/
def successLine (text : String) : String := "✓  " ++ text

/-- A line about a failure. -/
def failureLine (text : String) : String := "✗  " ++ text

/-- What is told about a failure that is reported; `none` in it if that cannot be
told. -/
def Failure.line? (terminal : Terminal) (f : Failure) : Option (Option String) :=
  f.message?.map fun message =>
    terminal.shownFailure (failureLine ("Rendering failed: " ++ message))

/-! ## Outputs -/

/-- Writes the samples of an output to a file. -/
def save (audio : AudioLibrary) (path : String) (rate : Int) (samples : List Int) (next : Script) :
    Script :=
  let write : Script :=
    match audio.write path rate samples with
    | .refused fault => .fail (.output path fault)
    | .whole content =>
      .writeAudio audio path content fun isWritten =>
        if isWritten then next else .fail (.output path .reported)
    | .abandoned content fault =>
      .writeAudio audio path content fun isWritten =>
        .fail (.output path (if isWritten then fault else .reported))
  let folder := Path.folderText path
  if folder.isEmpty then write
  else
    .makeFolders folder fun
      | .ok () => write
      | .error fault => .fail (.folder fault)

/-- The clip of a path, where these are the files of all clips. -/
def clipOf (audio : AudioLibrary) (files : List (String × FileState)) (path : String) :
    Except AudioFault (Clip Float) :=
  match List.lookup path files with
  | some state => audio.read path state
  | none => .error .reported

/-- The clips in some files. -/
def clipsIn (audio : AudioLibrary) (files : List (String × FileState)) : ClipLoader Float :=
  fun path => (clipOf audio files path).toOption

/-- The failure of an output that is not rendered: if that is for want of a clip, it is
the one of reading the clip. -/
def failureOf (audio : AudioLibrary) (files : List (String × FileState)) : Fault → Failure
  | .unreadableClip path =>
    match clipOf audio files path with
    | .ok _ | .error .reported => .rendering (.unreadableClip path)
    | .error fault => .clip path fault
  | fault => .rendering fault

/-- The paths of all clips of an arrangement. -/
def clipPaths (a : Arrangement Float) : List String :=
  a.banks.flatMap fun (_, b) => b.files.map Prod.snd

/-- The path of the file of an output. -/
def outputPath (outputDir : Option String) (bus : OutputBus) : String :=
  Path.joinText (outputDir.getD "") bus.outputFile

/-- Renders and writes the outputs that are left; the paths of those written
come last one first. -/
def renderFrom (platform : Platform) (s : Session Float) (notes : List Note)
    (outputDir : Option String) (rack : List (Bank Float)) (written : List String) :
    List OutputBus → Script
  | [] =>
    .tellAll platform.terminal (written.reverse.map fun path => successLine (Path.ofText path).name)
      .done
  | bus :: rest =>
    .lookAll platform.audio [] (fun files =>
      let (result, stage) :=
        { s with load := clipsIn platform.audio files }.renderBus notes bus (.ofRack rack)
      .warnAll (Event.warnings stage.trace)
        (match result with
        | .error fault => .fail (failureOf platform.audio files fault)
        | .ok take =>
          let path := outputPath outputDir bus
          save platform.audio path s.sampleRate take.samples.toList
            (renderFrom platform s notes outputDir stage.rack (path :: written) rest)))
      (clipPaths s.arrangement)

/-! ## The work -/

/-- Renders the notes of a score on an arrangement. -/
def render (platform : Platform) (o : Options) (a : Arrangement Float) (notes : List Note) :
    Script :=
  let s := Session.ofArrangement a fun _ => none
  let s := if o.lenient then { s with strict := false } else s
  .tell platform.terminal
    (infoLine (Decimal.natText notes.length ++ " notes at " ++ Decimal.intText a.sampleRate ++
      " Hz"))
    (.tell platform.terminal
      (stepLine 3 ("Rendering " ++ Decimal.natText a.outputs.length ++ " output(s)"))
      (renderFrom platform s notes o.outputDir a.rack [] a.outputs))

/-- The path of the score: the one asked for, or else the arrangement's own. -/
def scorePath? (o : Options) (a : Arrangement Float) : Option String :=
  match o.midi with
  | none => a.inputFile
  | some path => if path.isEmpty then a.inputFile else some path

/-- Reads the score of an arrangement and renders it. -/
def play (platform : Platform) (o : Options) (a : Arrangement Float) : Script :=
  let score : Script :=
    match scorePath? o a with
    | none => .fail .noScore
    | some path =>
      .tell platform.terminal (stepLine 2 ("Reading notes from " ++ path))
        (.look path fun state =>
          match Midi.readNotes state.content? a.sampleRate with
          | .error fault => .fail (.score path fault)
          | .ok (notes, warnings) => .warnAll warnings (render platform o a notes))
  if a.comments.isEmpty then score else .tell platform.terminal (infoLine a.comments) score

/-- All of the work. -/
def work (platform : Platform) (o : Options) : Script :=
  let path := Path.ofText o.config
  .tell platform.terminal (stepLine 1 ("Loading arrangement " ++ o.config))
    (.look path.text fun state =>
      match Document.ofFile platform.parsers path state with
      | .error fault => .fail (.arrangement (.document fault))
      | .ok document =>
        match Build.ofDocument path none document with
        | .error fault => .fail (.arrangement fault)
        | .ok a => play platform o a)

/-- The code that the program ends with: one if a failure is reported; a failure that
is not has none. -/
def exitCode? (terminal : Terminal) (outcome : Script.Outcome) : Option Nat :=
  match outcome.failure with
  | none => some 0
  | some failure =>
    match failure.line? terminal with
    | some (some _) => some 1
    | _ => none

end Orchestrion.CommandLine

import Orchestrion.Arrangement.Load
import Orchestrion.CommandLine.Terminal
import Orchestrion.Midi.Event
import Orchestrion.Wav.Library

set_option autoImplicit false

/-!
# Scripts

A script says what a program does step by step: what it tells, which files it
looks at, which it writes.  How it goes on after a look depends on what was found.
A script can be performed on real files, and followed on a tree of files.  What it tells
goes to a terminal, and its audio files are read and written by a library; both are those
of a platform, which has the parsers of documents as well.

Scope: nobody interrupts a script, and what is logged beside the warnings is left out.
-/

namespace Orchestrion.CommandLine

/-- What a program runs on. -/
structure Platform where
  parsers : Document.Parsers
  audio : AudioLibrary
  terminal : Terminal

/-- The platform that is run here. -/
def Platform.builtIn : Platform := ⟨.builtIn, .wave, .stripped⟩

/-- Why a program has not done its work. -/
inductive Failure where
  | arrangement (fault : ArrangementFault)
  /-- no score is given -/
  | noScore
  | score (path : String) (fault : Midi.Fault)
  | rendering (fault : Fault)
  /-- the folder of an output cannot be made -/
  | folder (fault : FolderFault)
  /-- a clip that cannot be read for a reason that is not reported -/
  | clip (path : String) (fault : AudioFault)
  /-- an output that cannot be written -/
  | output (path : String) (fault : AudioFault)
  /-- what is to be told cannot be -/
  | untold

/-- What is said about a failure that the program reports; all others end it. -/
def Failure.message? : Failure → Option String
  | .arrangement fault => fault.message?
  | .noScore => some "No MIDI file given (use --midi or metadata.input_file)"
  | .score path .unreadable => some (Midi.unreadableMessage path)
  | .score _ _ => none
  | .rendering fault => fault.message?
  | .folder _ => none
  | .clip _ _ => none
  | .output path .reported => some (Wav.unwritableMessage path)
  | .output _ _ => none
  | .untold => none

/-- What a program does. -/
inductive Script where
  /-- tells a line -/
  | say (line : String) (next : Script)
  | warn (w : Warning) (next : Script)
  /-- looks what there is at a path -/
  | look (path : String) (next : FileState → Script)
  /-- makes a folder and those it is in -/
  | makeFolders (path : String) (next : Except FolderFault Unit → Script)
  /-- writes a file, if that is possible -/
  | write (path : String) (content : Bytes) (next : Bool → Script)
  | fail (failure : Failure)
  | done

namespace Script

/-- Tells a text. -/
def tell (terminal : Terminal) (text : String) (next : Script) : Script :=
  match terminal.shown text with
  | some line => .say line next
  | none => .fail .untold

/-- Tells some texts. -/
def tellAll (terminal : Terminal) (texts : List String) (next : Script) : Script :=
  texts.foldr (tell terminal) next

/-- Gives some warnings. -/
def warnAll (ws : List Warning) (next : Script) : Script := ws.foldr Script.warn next

/-- Looks at the audio files of some paths; what has been found so far comes last
one first. -/
def lookAll (audio : AudioLibrary) (found : List (String × FileState))
    (next : List (String × FileState) → Script) : List String → Script
  | [] => next found.reverse
  | path :: rest =>
    match audio.opens path with
    | none => lookAll audio ((path, .tooLong) :: found) next rest
    | some opened => .look opened fun state => lookAll audio ((path, state) :: found) next rest

/-- Writes the audio file of a path, if that is possible. -/
def writeAudio (audio : AudioLibrary) (path : String) (content : Bytes) (next : Bool → Script) :
    Script :=
  match audio.opens path with
  | none => next false
  | some opened => .write opened content next

/-! ## Following a script -/

/-- What has come of a script. -/
structure Outcome where
  said : List String
  warnings : List Warning
  failure : Option Failure
  tree : FileTree

/-- What comes of a script on a tree of files. -/
def follow : Script → FileTree → Outcome
  | .say line next, tree =>
    let outcome := next.follow tree
    { outcome with said := line :: outcome.said }
  | .warn w next, tree =>
    let outcome := next.follow tree
    { outcome with warnings := w :: outcome.warnings }
  | .look path next, tree => (next (tree.look path)).follow tree
  | .makeFolders path next, tree =>
    match tree.makeFolders path with
    | .ok tree => (next (.ok ())).follow tree
    | .error fault => (next (.error fault)).follow tree
  | .write path content next, tree =>
    match tree.write? path content with
    | some tree => (next true).follow tree
    | none => (next false).follow tree
  | .fail failure, tree => ⟨[], [], some failure, tree⟩
  | .done, tree => ⟨[], [], none, tree⟩

end Script

end Orchestrion.CommandLine

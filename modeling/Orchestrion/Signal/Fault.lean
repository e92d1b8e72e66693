import Orchestrion.Scalar
import Orchestrion.Decimal.Notation

set_option autoImplicit false

/-!
# Faults and events of playing

What can go wrong while notes are played, and what is worth telling although
nothing went wrong.
-/

namespace Orchestrion

/-- Why playing has stopped. -/
inductive Fault where
  /-- a number that cannot be computed -/
  | arithmetic (fault : ArithFault)
  /-- a context without a value that is needed -/
  | missingValue (name : String)
  /-- a place before the beginning of a clip -/
  | beforeClip
  /-- a clip that cannot be decoded -/
  | unreadableClip (path : String)
  /-- a cache that may hold fewer clips than none -/
  | noRoom
  /-- a note whose program no instrument plays -/
  | missingInstrument (program : Int)
  /-- a mix that would end before it begins -/
  | negativeLength
  /-- a note whose slots are not all in the mix -/
  | misplaced
  deriving DecidableEq, Repr

/-- What is said about a clip that cannot be decoded. -/
def unreadableClipMessage (path : String) : String := "Failed to read audio clip " ++ path

/-- What is said about a fault that the player reports by itself. -/
def Fault.message? : Fault → Option String
  | .unreadableClip path => some (unreadableClipMessage path)
  | .missingInstrument program =>
    some ("Could not find an instrument mapped to MIDI patch " ++ Decimal.intText program)
  | _ => none

/-! ## Events -/

/-- Something that is told without stopping. -/
inductive Warning where
  /-- a bank without a clip of a pitch -/
  | noClip (bank : String) (pitch : Int)
  /-- a bank without any clip that could stand in for a pitch -/
  | noSubstitute (bank : String) (pitch : Int)
  /-- a note that no instrument plays, left out of the mix -/
  | skippedNote (pitch start program : Int)
  /-- the end of a note that has not begun -/
  | unmatchedEnd (pitch channel : Int)
  /-- notes that have begun and never end -/
  | unendedNotes (count : Nat)
  deriving DecidableEq, Repr

/-- The text of a warning. -/
def Warning.message : Warning → String
  | .noClip bank pitch =>
    "Bank '" ++ bank ++ "' has no sample with MIDI pitch " ++ Decimal.intText pitch ++
      " - attempting to resample"
  | .noSubstitute bank pitch =>
    "Bank '" ++ bank ++ "' has no clips to resample for pitch " ++ Decimal.intText pitch
  | .skippedNote pitch start program =>
    "Skipping note " ++ Decimal.intText pitch ++ " at sample " ++ Decimal.intText start ++
      ": no instrument mapped to MIDI patch " ++ Decimal.intText program
  | .unmatchedEnd pitch channel =>
    "Note off for pitch " ++ Decimal.intText pitch ++ " on channel " ++ Decimal.intText channel ++
      " with no matching note on - skipping"
  | .unendedNotes count =>
    Decimal.natText count ++ " notes were never released and will not be rendered"

/-- Something that happens while notes are played. -/
inductive Event where
  /-- the clip at a path is asked for -/
  | decoding (path : String)
  | warning (w : Warning)
  deriving DecidableEq, Repr

/-- The clips asked for in a trace, in order. -/
def Event.decodings (trace : List Event) : List String :=
  trace.filterMap fun
    | .decoding path => some path
    | .warning _ => none

/-- The warnings in a trace, in order. -/
def Event.warnings (trace : List Event) : List Warning :=
  trace.filterMap fun
    | .decoding _ => none
    | .warning w => some w

/-! ## Values of a context -/

/-- A result of the arithmetic within playing. -/
def computed {β : Type} : Except ArithFault β → Except Fault β
  | .ok b => .ok b
  | .error fault => .error (.arithmetic fault)

end Orchestrion

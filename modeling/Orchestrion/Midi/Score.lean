import Orchestrion.Midi.Reader
import Orchestrion.Midi.Timing
import Orchestrion.Score.Matching

set_option autoImplicit false

/-!
# The notes of a file
-/

namespace Orchestrion.Midi

/-- The notes of some messages, unless the time of one of them cannot be told, or there would
be more messages if the time of the next one could. -/
def concluded :
    Except ArithFault (List Note × List Warning) → Option ArithFault →
      Except Fault (List Note × List Warning)
  | .error fault, _ => .error (.arithmetic fault)
  | .ok _, some fault => .error (.arithmetic fault)
  | .ok result, none => .ok result

/-- The notes of a file, if there is one, in samples, and what is to be warned
of.  Each message is played before the time of the next one is computed. -/
def readNotes (file : Option Bytes) (rate : Int) : Except Fault (List Note × List Warning) :=
  match file with
  | none => .error .unreadable
  | some bs =>
    match read bs with
    | .error fault => .error fault
    | .ok file =>
      match file.messages (α := Float) with
      | .error fault => .error fault
      | .ok (messages, stop) => concluded (Score.notes messages rate) stop

end Orchestrion.Midi

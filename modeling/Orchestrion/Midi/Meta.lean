import Orchestrion.Bytes
import Orchestrion.Midi.Event

set_option autoImplicit false

/-!
# Events about a track

Besides messages a track holds events about itself: texts, tempo, time and key
signatures, its end.  Only the tempo and the end matter for the notes, but all of
the known kinds have to be well written.
-/

namespace Orchestrion.Midi.Meta

/-- An event that says nothing about notes. -/
def silent : Event := .message .other

/-- The number of a sequence, in the first two bytes; it may be left out. -/
def sequenceNumber : Bytes → Except Fault Event
  | [_] => .error .shortEvent
  | _ => .ok silent

/-- A channel, in the first byte. -/
def channel : Bytes → Except Fault Event
  | [] => .error .shortEvent
  | _ => .ok silent

/-- A tempo, in the first three bytes. -/
def tempo : Bytes → Except Fault Event
  | a :: b :: c :: _ => .ok (.tempo (Bytes.ofBigEndian [a, b, c]))
  | _ => .error .shortEvent

/-- The byte at an index has to be there, and not above a limit. -/
def checked (data : Bytes) (index limit : Nat) : Except Fault Unit :=
  match data[index]? with
  | none => .error .shortEvent
  | some b => if b.toNat ≤ limit then .ok () else .error .unreadable

/-- A time of day: rate and hours, minutes, seconds, frames, parts of a frame. -/
def timeOfDay (data : Bytes) : Except Fault Event := do
  checked data 0 127
  checked data 1 59
  checked data 2 59
  checked data 3 255
  checked data 4 99
  return silent

/-- Whether a power of two is found again by its logarithm. -/
def isPowerOfTwo (exponent : Nat) : Bool :=
  let x := Float.log (Float.ofNat (Nat.pow 2 exponent)) / Float.log 2.0
  x == x.floor

/-- A time signature: beats, the power of two that a beat is a part of, clocks
and parts of a beat. -/
def timeSignature (data : Bytes) : Except Fault Event :=
  match data with
  | _ :: power :: rest =>
    if isPowerOfTwo power.toNat then
      if rest.length < 2 then .error .shortEvent else .ok silent
    else .error .unreadable
  | _ => .error .shortEvent

/-- The greatest number of sharps or flats of a key. -/
def maxAccidentals : Nat := 7

/-- A key: the number of sharps, negative for flats, and whether it is minor. -/
def keySignature (data : Bytes) : Except Fault Event :=
  match data with
  | sharps :: mode :: _ =>
    if (Bytes.signed 1 sharps.toNat).natAbs ≤ maxAccidentals ∧ mode.toNat ≤ 1 then .ok silent
    else .error .unknownKey
  | _ => .error .shortEvent

/-- The event of a kind; `none` for a kind that is not known. -/
def event? (kind : Nat) (data : Bytes) : Option (Except Fault Event) :=
  match kind with
  | 0x00 => some (sequenceNumber data)
  | 0x20 => some (channel data)
  | 0x2f => some (.ok .endOfTrack)
  | 0x51 => some (tempo data)
  | 0x54 => some (timeOfDay data)
  | 0x58 => some (timeSignature data)
  | 0x59 => some (keySignature data)
  | 0x01 | 0x02 | 0x03 | 0x04 | 0x05 | 0x06 | 0x07 | 0x09 | 0x21 | 0x7f => some (.ok silent)
  | _ => none

end Orchestrion.Midi.Meta

import Orchestrion.Midi.Meta

set_option autoImplicit false

/-!
# Reading a standard MIDI file

A file is a header and as many tracks as the header says; what follows them is
not looked at.  A track ends where as many bytes have been read as it says.  An
event whose first byte is below 128 has the kind of the event before, events
about the track apart.
-/

namespace Orchestrion.Midi

/-! ## Bytes in order -/

/-- The bytes that are left, and how many have been read. -/
structure Cursor where
  position : Nat
  rest : Bytes

namespace Cursor

/-- The next byte. -/
def byte (c : Cursor) : Except Fault (UInt8 × Cursor) :=
  match c.rest with
  | [] => .error .unreadable
  | b :: rest => .ok (b, ⟨c.position + 1, rest⟩)

/-- The next `n` bytes; those read so far come last one first. -/
def bytesFrom (found : Bytes) (position : Nat) : Nat → Bytes → Except Fault (Bytes × Cursor)
  | 0, rest => .ok (found.reverse, ⟨position, rest⟩)
  | _ + 1, [] => .error .unreadable
  | n + 1, b :: rest => bytesFrom (b :: found) (position + 1) n rest

/-- The next `n` bytes. -/
def bytes (c : Cursor) (n : Nat) : Except Fault (Bytes × Cursor) :=
  bytesFrom [] c.position n c.rest

/-- The next number of variable length, after some of its digits: seven bits in
each byte, and the eighth is set in all but the last. -/
def quantityFrom (value position : Nat) : Bytes → Except Fault (Nat × Cursor)
  | [] => .error .unreadable
  | b :: rest =>
    let value := 128 * value + b.toNat % 128
    if b.toNat < 128 then .ok (value, ⟨position + 1, rest⟩)
    else quantityFrom value (position + 1) rest

/-- The next number of variable length. -/
def quantity (c : Cursor) : Except Fault (Nat × Cursor) := quantityFrom 0 c.position c.rest

/-- The next chunk header: a name of four bytes and a size. -/
def chunkHeader (c : Cursor) : Except Fault (Bytes × Nat × Cursor) := do
  let (name, c) ← c.bytes 4
  let (size, c) ← c.bytes 4
  return (name, Bytes.ofBigEndian size, c)

end Cursor

/-! ## Events -/

/-- The number of data bytes of a status; `none` for a status that is not
defined. -/
def dataLength? (status : Nat) : Option Nat :=
  match status / 16 with
  | 0x8 | 0x9 | 0xa | 0xb | 0xe => some 2
  | 0xc | 0xd => some 1
  | _ =>
    match status with
    | 0xf2 => some 2
    | 0xf1 | 0xf3 => some 1
    | 0xf6 | 0xf8 | 0xfa | 0xfb | 0xfc | 0xfe => some 0
    | _ => none

/-- The message of a status and its data. -/
def messageOf (status : Nat) (data : List Int) : Message :=
  let channel : Int := (status % 16 : Nat)
  match status / 16, data with
  | 0x8, [pitch, velocity] => .noteOff channel pitch velocity
  | 0x9, [pitch, velocity] => .noteOn channel pitch velocity
  | 0xc, [program] => .programChange channel program
  | _, _ => .other

/-- The longest event in bytes. -/
def maxLength : Nat := 1000000

/-- The data of an event of variable length. -/
def longData (c : Cursor) : Except Fault (Bytes × Cursor) := do
  let (length, c) ← c.quantity
  if maxLength < length then .error .unreadable else c.bytes length

/-- The statuses of system exclusive data. -/
def exclusiveStatus : Nat := 0xf0

/-- The status that ends system exclusive data, or continues it. -/
def exclusiveEnd : Nat := 0xf7

/-- The status of events about the track. -/
def metaStatus : Nat := 0xff

/-- Data without the statuses that may stand around it. -/
def exclusiveData (data : Bytes) : Bytes :=
  let data :=
    match data with
    | b :: rest => if b.toNat = exclusiveStatus then rest else data
    | [] => data
  if (data.getLast?.map UInt8.toNat) = some exclusiveEnd then data.dropLast else data

/-- A system exclusive event. -/
def exclusive (c : Cursor) : Except Fault (Event × Cursor) := do
  let (data, c) ← longData c
  if (exclusiveData data).all fun b => b.toNat < 128 then return (Meta.silent, c)
  else .error .unreadable

/-- An event about the track; an event of a kind that is not known has no time. -/
def metaEvent (ticks : Nat) (c : Cursor) : Except Fault (TimedEvent × Cursor) := do
  let (kind, c) ← c.byte
  let (data, c) ← longData c
  match Meta.event? kind.toNat data with
  | none => return (⟨0, Meta.silent⟩, c)
  | some (.ok event) => return (⟨ticks, event⟩, c)
  | some (.error fault) => .error fault

/-- A message of a status, some of whose data have been read. -/
def message (status : Nat) (data : Bytes) (c : Cursor) : Except Fault (Event × Cursor) :=
  match dataLength? status with
  | none => .error .unreadable
  | some length =>
    if length < data.length then .error .unreadable
    else do
      let (more, c) ← c.bytes (length - data.length)
      let data := data ++ more
      if data.all fun b => b.toNat < 128 then
        return (.message (messageOf status (data.map fun b => (b.toNat : Int))), c)
      else .error .unreadable

/-- The next event, after an event of some status, and its own status. -/
def event (running : Option Nat) (c : Cursor) :
    Except Fault (TimedEvent × Option Nat × Cursor) := do
  let (ticks, c) ← c.quantity
  let (first, c) ← c.byte
  let first := first.toNat
  if first = metaStatus then
    let (event, c) ← metaEvent ticks c
    return (event, running, c)
  else
    let status? := if first < 128 then running else some first
    match status? with
    | none => .error .unreadable
    | some status =>
      let data : Bytes := if first < 128 then [UInt8.ofNat first] else []
      let (event, c) ←
        if status = exclusiveStatus ∨ status = exclusiveEnd then exclusive c
        else message status data c
      return (⟨ticks, event⟩, some status, c)

/-! ## Tracks -/

/-- The events up to a position; those read so far come last one first.  Every
event has a byte, so no more are looked for than there are bytes. -/
def eventsUpTo (position : Nat) (running : Option Nat) (found : Track) (bound : Nat) (c : Cursor) :
    Except Fault (Track × Cursor) :=
  if c.position = position then .ok (found.reverse, c)
  else
    match bound with
    | 0 => .error .unreadable
    | bound + 1 =>
      match event running c with
      | .error fault => .error fault
      | .ok (e, running, c) => eventsUpTo position running (e :: found) bound c

/-- The next track. -/
def track (c : Cursor) : Except Fault (Track × Cursor) := do
  let (name, size, c) ← c.chunkHeader
  if name = Bytes.ofAscii "MTrk" then eventsUpTo (c.position + size) none [] c.rest.length c
  else .error .unreadable

/-- The next tracks. -/
def tracks : Nat → Cursor → Except Fault (List Track)
  | 0, _ => .ok []
  | n + 1, c =>
    match track c with
    | .error fault => .error fault
    | .ok (t, c) =>
      match tracks n c with
      | .error fault => .error fault
      | .ok ts => .ok (t :: ts)

/-- The three numbers of a header. -/
def headerFields (data : Bytes) : Int × Int × Int :=
  let field (start : Nat) : Int :=
    Bytes.signed 2 (Bytes.ofBigEndian ((data.drop start).take 2))
  (field 0, field 2, field 4)

/-- The file of some bytes. -/
def read (file : Bytes) : Except Fault File := do
  let (name, size, c) ← (Cursor.mk 0 file).chunkHeader
  let header := c.rest.take size
  if name ≠ Bytes.ofAscii "MThd" ∨ header.length < 6 then .error .unreadable
  else
    let (format, count, ticksPerBeat) := headerFields header
    let ts ← tracks count.toNat ⟨c.position + header.length, c.rest.drop size⟩
    return ⟨format, ticksPerBeat, ts⟩

end Orchestrion.Midi

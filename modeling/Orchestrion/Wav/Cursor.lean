import Orchestrion.Bytes

set_option autoImplicit false

/-!
# Places in a file

A file is read field by field, and now and then a field is read again.  So a
cursor holds two places: that of the next field, and how far the file has been
read or passed over.  A field that the file is too short for is all zero, and with
it the file has been read to its end.
-/

namespace Orchestrion.Wav

/-- A place in a file. -/
structure Cursor where
  /-- the place of the next field -/
  next : Nat
  /-- how far the file has been read or passed over -/
  reached : Nat
  deriving DecidableEq, Repr

namespace Cursor

/-- The bytes at a place, as far as there are any. -/
def bytesAt (file : Bytes) (place width : Nat) : Bytes := (file.drop place).take width

/-- The cursor at a place. -/
def moveTo (c : Cursor) (place : Nat) : Cursor := ⟨place, max c.reached place⟩

/-- Whether the file has a field of some bytes at a cursor. -/
def hasField (file : Bytes) (c : Cursor) (width : Nat) : Bool :=
  c.next + width ≤ file.length

/-- The bytes of the next field. -/
def field (file : Bytes) (c : Cursor) (width : Nat) : Bytes :=
  if c.hasField file width then bytesAt file c.next width else List.replicate width 0

/-- The cursor behind the next field. -/
def behind (file : Bytes) (c : Cursor) (width : Nat) : Cursor :=
  if c.hasField file width then c.moveTo (c.next + width)
  else { c with reached := max c.reached file.length }

/-- The number in the next field. -/
def number (order : ByteOrder) (file : Bytes) (c : Cursor) (width : Nat) : Nat :=
  order.number (c.field file width)

/-- Passes over some bytes, or goes back; never to a place before the file. -/
def skip (c : Cursor) (bytes : Int) : Cursor :=
  let place := (c.next : Int) + bytes
  if place < 0 then c else c.moveTo place.toNat

/-- Passes over a difference of two numbers of four bytes, which wraps around. -/
def skipRest (c : Cursor) (size read : Nat) : Cursor :=
  c.skip (Bytes.signed 4 (((size : Int) - read) % Nat.pow 256 4).toNat)

end Cursor

end Orchestrion.Wav

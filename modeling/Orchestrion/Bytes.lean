set_option autoImplicit false

/-!
# Numbers in bytes

The fields of a file are numbers of a few bytes, the lowest byte first or the
highest one first.
-/

namespace Orchestrion

/-- What a file holds. -/
abbrev Bytes := List UInt8

namespace Bytes

/-- The `w` lowest bytes of a number, the lowest one first. -/
def littleEndian : Nat → Nat → Bytes
  | 0, _ => []
  | w + 1, n => UInt8.ofNat (n % 256) :: littleEndian w (n / 256)

/-- The number of some bytes, the lowest one first. -/
def ofLittleEndian : Bytes → Nat
  | [] => 0
  | b :: rest => b.toNat + 256 * ofLittleEndian rest

/-- The number of some bytes, the highest one first. -/
def ofBigEndian (bs : Bytes) : Nat := bs.foldl (fun n b => 256 * n + b.toNat) 0

/-- The integer that a number of `w` bytes stands for in two's complement. -/
def signed (w n : Nat) : Int := if 2 * n < Nat.pow 256 w then n else (n : Int) - Nat.pow 256 w

/-- The bytes of an integer in two's complement, the lowest one first. -/
def ofSigned (w : Nat) (n : Int) : Bytes := littleEndian w (n % Nat.pow 256 w).toNat

/-- The characters of a text that has no others than those of seven bits. -/
def ofAscii (s : String) : Bytes := s.toList.map fun c => UInt8.ofNat c.toNat

end Bytes

/-- Which byte of a number comes first. -/
inductive ByteOrder where
  | lowestFirst
  | highestFirst
  deriving DecidableEq, Repr

namespace ByteOrder

/-- The bytes of a number in an order, with the lowest one in front. -/
def arrange : ByteOrder → Bytes → Bytes
  | .lowestFirst, bs => bs
  | .highestFirst, bs => bs.reverse

/-- The number of some bytes in an order. -/
def number (order : ByteOrder) (bs : Bytes) : Nat := Bytes.ofLittleEndian (order.arrange bs)

end ByteOrder

end Orchestrion

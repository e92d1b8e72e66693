import Orchestrion.Binary64
import Orchestrion.Bytes

set_option autoImplicit false

/-!
# Samples in a wave file

A sample is an integer of one to four bytes, or a number of single or double
precision; the lowest byte comes first.  Integers of one byte are counted from
the lowest value on, wider ones are signed.  An integer is the sample's place in
the range of its width, which stands for the range from -1 to 1.
-/

namespace Orchestrion.Wav

/-- How a sample is written. -/
inductive Encoding where
  /-- an integer of some bytes -/
  | integer (bytes : Nat)
  | single
  | double
  deriving DecidableEq, Repr

namespace Encoding

/-- The code of integers in the format of a file. -/
def integerCode : Nat := 1

/-- The code of numbers in the format of a file. -/
def realCode : Nat := 3

/-- The encoding of a code and a number of bits. -/
def of? (code bits : Nat) : Option Encoding :=
  let bytes := (bits + 7) / 8
  if code = integerCode then if 1 ≤ bytes ∧ bytes ≤ 4 then some (.integer bytes) else none
  else if code = realCode then
    match bytes with
    | 4 => some .single
    | 8 => some .double
    | _ => none
  else none

/-- The number of bytes of a sample. -/
def width : Encoding → Nat
  | .integer bytes => bytes
  | .single => 4
  | .double => 8

/-- The number that is written as an integer: `n / 2 ^ (8 * bytes - 1)`. -/
def ofInteger (bytes : Nat) (n : Int) : Binary64 :=
  .finite (n < 0) n.natAbs (1 - 8 * (bytes : Int))

/-- The integer that some bytes stand for. -/
def integerOf (bs : Bytes) : Int :=
  match bs with
  | [b] => (b.toNat : Int) - 128
  | bs => Bytes.signed bs.length (Bytes.ofLittleEndian bs)

/-- The number of a bit pattern of single precision. -/
def ofSingleBits (bits : Nat) : Binary64 :=
  let negative : Bool := Nat.pow 2 31 ≤ bits
  let field : Nat := bits / Nat.pow 2 23 % 256
  let fraction : Nat := bits % Nat.pow 2 23
  if field = 255 then
    if fraction = 0 then .infinite negative else .nan
  else if field = 0 then .finite negative fraction (-149)
  else .finite negative (Nat.pow 2 23 + fraction) ((field : Int) - 150)

/-- The number that some bytes stand for, in single precision. -/
def value (e : Encoding) (bs : Bytes) : Binary64 :=
  match e with
  | .integer bytes => (ofInteger bytes (integerOf bs)).single
  | .single => ofSingleBits (Bytes.ofLittleEndian bs)
  | .double => (Binary64.ofFloat (.ofBits (.ofNat (Bytes.ofLittleEndian bs)))).single

end Encoding

end Orchestrion.Wav

import Orchestrion.Wav.Encoding

set_option autoImplicit false

/-!
# Format of the samples

The format chunk tells how samples are encoded, how many channels there are and
the sample rate.  The encoding has a code; one of the codes says that the code is
in an extension, within a name of sixteen bytes whose ending is fixed.
-/

namespace Orchestrion.Wav

/-- How the samples of a file are written. -/
structure Format where
  encoding : Encoding
  channels : Nat
  /-- the sample rate, in two's complement -/
  rate : Int
  deriving DecidableEq, Repr

namespace Format

/-- The greatest number of channels. -/
def maxChannels : Nat := 1024

/-- Whether there can be samples of a format. -/
def isValid (f : Format) : Bool := 1 ≤ f.channels && f.channels ≤ maxChannels && 1 ≤ f.rate

/-- The size of the shortest format chunk. -/
def minSize : Nat := 16

/-- The size of a format chunk with an extension. -/
def extendedSize : Nat := 40

/-- The code of an encoding whose own code is in the extension. -/
def extendedCode : Nat := 0xfffe

/-- The endings of the names of encodings, whose numbers are in order. -/
def nameEndings (order : ByteOrder) : List Bytes :=
  match order with
  | .lowestFirst =>
    [[0x00, 0x00, 0x10, 0x00, 0x80, 0x00, 0x00, 0xaa, 0x00, 0x38, 0x9b, 0x71],
      [0x21, 0x07, 0xd3, 0x11, 0x86, 0x44, 0xc8, 0xc1, 0xca, 0x00, 0x00, 0x00]]
  | .highestFirst =>
    [[0x00, 0x00, 0x00, 0x10, 0x80, 0x00, 0x00, 0xaa, 0x00, 0x38, 0x9b, 0x71],
      [0x07, 0x21, 0x11, 0xd3, 0x86, 0x44, 0xc8, 0xc1, 0xca, 0x00, 0x00, 0x00]]

/-- The code of the encoding in a format chunk. -/
def code? (order : ByteOrder) (chunk : Bytes) : Option Nat :=
  let code := order.number (chunk.take 2)
  if code = extendedCode then
    let name := (chunk.take extendedSize).drop 24
    if (nameEndings order).contains (name.drop 4) then some (order.number (name.take 4)) else none
  else some code

/-- The format that a format chunk tells. -/
def ofChunk? (order : ByteOrder) (chunk : Bytes) : Option Format :=
  let number (start width : Nat) : Nat := order.number ((chunk.drop start).take width)
  if chunk.length < minSize then none
  else
    match code? order chunk with
    | none => none
    | some code =>
      (Encoding.of? code (number 14 2)).map fun encoding =>
        ⟨encoding, number 2 2, Bytes.signed 4 (number 4 4)⟩

end Format

end Orchestrion.Wav

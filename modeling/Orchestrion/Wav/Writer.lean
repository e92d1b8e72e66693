import Orchestrion.Bytes
import Orchestrion.Files.Path

set_option autoImplicit false

/-!
# Writing wave files

A file of one channel of signed integers of 16 bits: a header of 44 bytes and the
samples.

Deviations: no other format is written, so the names of all other files are refused,
also where their endings tell a format that there is; and a file is never too large.
-/

namespace Orchestrion.Wav

/-- The number of bytes of a sample. -/
def sampleSize : Nat := 2

/-- The number of bytes between the size of the file and the samples. -/
def headerRest : Nat := 36

/-- The format of the samples, for a sample rate. -/
def formatFields (rate : Nat) : Bytes :=
  Bytes.littleEndian 2 1 ++ Bytes.littleEndian 2 1 ++ Bytes.littleEndian 4 rate ++
    Bytes.littleEndian 4 (rate * sampleSize) ++ Bytes.littleEndian 2 sampleSize ++
    Bytes.littleEndian 2 (8 * sampleSize)

/-- The header of a file with some bytes of samples. -/
def header (rate size : Nat) : Bytes :=
  Bytes.ofAscii "RIFF" ++ Bytes.littleEndian 4 (headerRest + size) ++ Bytes.ofAscii "WAVE" ++
    Bytes.ofAscii "fmt " ++ Bytes.littleEndian 4 (formatFields rate).length ++ formatFields rate ++
    Bytes.ofAscii "data" ++ Bytes.littleEndian 4 size

/-- The bytes of some samples. -/
def sampleBytes (samples : List Int) : Bytes := samples.flatMap (Bytes.ofSigned sampleSize)

/-- The file of some samples. -/
def encode (rate : Nat) (samples : List Int) : Bytes :=
  header rate (sampleSize * samples.length) ++ sampleBytes samples

/-! ## Files by name -/

/-- Why samples cannot be written to a file. -/
inductive WriteFault where
  /-- the name of the file does not say that it is a wave file -/
  | unknownFormat
  /-- a sample rate beyond the range of its field -/
  | rateTooLarge
  /-- a sample rate below one -/
  | rateTooSmall
  deriving DecidableEq, Repr

/-- What is said about a file that cannot be written. -/
def unwritableMessage (path : String) : String := "Failed to write " ++ path

/-- The ending of the names of wave files. -/
def waveExtension : String := "wav"

/-- Whether a file is a wave file by its name. -/
def isWaveName (path : String) : Bool :=
  String.ofList ((Path.extension path).toList.map Char.toLower) == waveExtension

/-- What a file holds when its sample rate turns out to be too small: a rate below
zero is refused at once, but one of zero only when the header has been written. -/
def abandoned (rate : Int) : Bytes := if rate < 0 then [] else encode 0 []

/-- The content of the file of a name for some samples. -/
def fileOf (path : String) (rate : Int) (samples : List Int) : Except WriteFault Bytes :=
  if !isWaveName path then .error .unknownFormat
  else if 2147483648 ≤ rate ∨ rate < -2147483648 then .error .rateTooLarge
  else if rate < 1 then .error .rateTooSmall
  else .ok (encode rate.toNat samples)

end Orchestrion.Wav

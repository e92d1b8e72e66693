import Orchestrion.Scalar
import Orchestrion.Signal.Resample
import Orchestrion.Wav.Contents

set_option autoImplicit false

/-!
# Reading wave files

A clip is what the samples of a file are.  Several channels become one: the
samples of one instant are added up in single precision and divided by their
number.  Many samples are not added up one after another but in eight rows, and
very many in two parts, as that keeps the errors of rounding small.

Deviations: files of all other formats are refused, and so are wave files with
compressed samples, with chunks of 64 bits, or with a sound of another format inside.
-/

namespace Orchestrion.Wav

/-- The next samples of a row of bytes; those found so far come last one first. -/
def samplesFrom (e : Encoding) (order : ByteOrder) (found : List Float) :
    Nat → Bytes → List Float
  | 0, _ => found.reverse
  | n + 1, bs =>
    let x := (e.value (order.arrange (bs.take e.width))).toFloat
    samplesFrom e order (x :: found) n (bs.drop e.width)

/-! ## Sums -/

/-- A sum in single precision. -/
def add (x y : Float) : Float := Scalar.single (x + y)

/-- The sum of some numbers one after another. -/
def sumInOrder : List Float → Float
  | [] => 0.0
  | x :: rest => rest.foldl add x

/-- How many numbers are added up side by side. -/
def lanes : Nat := 8

/-- Adds up rows of numbers side by side; what is left does not make a row. -/
def sumRows (sums : List Float) : Nat → List Float → List Float × List Float
  | 0, rest => (sums, rest)
  | n + 1, xs => sumRows (List.zipWith add sums (xs.take lanes)) n (xs.drop lanes)

/-- The sums of neighbours. -/
def sumPairs : List Float → List Float
  | x :: y :: rest => add x y :: sumPairs rest
  | xs => xs

/-- The sum of a block of numbers: the sums of the rows, two by two, and then what
is left. -/
def sumBlock (xs : List Float) : Float :=
  if xs.length < lanes then sumInOrder xs
  else
    let (sums, rest) := sumRows (xs.take lanes) (xs.length / lanes - 1) (xs.drop lanes)
    sumInOrder (sumPairs (sumPairs (sumPairs sums)) ++ rest)

/-- The greatest number of numbers in a block. -/
def blockSize : Nat := 128

/-- The sum of some numbers, which are halved at most `depth` times. -/
def sumHalves : Nat → List Float → Float
  | 0, xs => sumBlock xs
  | depth + 1, xs =>
    if xs.length ≤ blockSize then sumBlock xs
    else
      let half := xs.length / 2 / lanes * lanes
      add (sumHalves depth (xs.take half)) (sumHalves depth (xs.drop half))

/-- The mean of the samples of one instant, in single precision. -/
def mean (xs : List Float) : Float :=
  Scalar.single (sumHalves xs.length xs / Float.ofNat xs.length)

/-! ## Clips -/

/-- The means of the next instants; those found so far come last one first. -/
def meansFrom (channels : Nat) (found : List Float) : Nat → List Float → List Float
  | 0, _ => found.reverse
  | n + 1, xs => meansFrom channels (mean (xs.take channels) :: found) n (xs.drop channels)

/-- The clip in a file. -/
def decode (file : Bytes) : Option (Clip Float) :=
  match parts? file with
  | none => none
  | some (f, order, bs) =>
    let instants := bs.length / (f.channels * f.encoding.width)
    let samples := samplesFrom f.encoding order [] (instants * f.channels) bs
    some (if f.channels = 1 then samples else meansFrom f.channels [] instants samples).toArray

end Orchestrion.Wav

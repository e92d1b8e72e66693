import Orchestrion.Wav.Annotation
import Orchestrion.Wav.Format

set_option autoImplicit false

/-!
# Chunks of a wave file

A wave file is a row of chunks, each with a name and a size; an odd size is
followed by one more byte.  The chunk `fmt ` tells how the samples are written,
the chunk `data` holds them.  Of several format chunks the first one counts, and
the body of another is read as if it were chunks; of several data chunks the last
one counts.  The chunks are looked for until the file or their order ends.
-/

namespace Orchestrion.Wav

/-- Where the samples of a file are. -/
structure SampleRange where
  start : Nat
  /-- the end of the samples, if they end before the file does -/
  stop : Option Nat
  deriving DecidableEq, Repr

/-- What has been found in the chunks of a file. -/
structure Contents where
  format : Option Format
  range : Option SampleRange
  deriving DecidableEq, Repr

/-- What comes of a chunk. -/
inductive Passage where
  /-- the file is no wave file -/
  | refused
  /-- no chunks are looked for any more -/
  | last (found : Contents)
  /-- what has been found, the place behind the chunk, and its size -/
  | next (found : Contents) (c : Cursor) (size : Nat)

/-- A file whose chunks are looked for. -/
structure Source where
  file : Bytes
  order : ByteOrder
  /-- the size of the file as its beginning tells it, or what it really is if that
  is less -/
  size : Nat

namespace Source

/-- The size that the beginning of a file tells before the file is finished. -/
def unfinishedSize : Nat := 8

/-- The size of a file that has chunks, and nothing in them. -/
def emptySize : Nat := 44

/-- The size of the samples of a data chunk whose body begins at a place.  A file
that has not been finished has samples up to its end, though it does not say so. -/
def samplesSize (s : Source) (start size : Nat) : Nat :=
  let left := s.file.length - start
  if size = 0 ∧ s.size = unfinishedSize ∧ emptySize < s.file.length then left else min size left

/-- The chunk with the samples. -/
def passData (s : Source) (found : Contents) (size : Nat) (c : Cursor) : Passage :=
  match found.format with
  | none => .refused
  | some _ =>
    let start := c.reached
    let stop := start + s.samplesSize start size
    let before := found.range.bind SampleRange.stop
    let range : SampleRange := ⟨start, if stop < s.file.length then some stop else before⟩
    .next { found with range := some range } (c.moveTo (stop + (stop - start) % 2)) 0

/-- The chunk with the format. -/
def passFormat (s : Source) (found : Contents) (size : Nat) (c : Cursor) : Passage :=
  match found.format with
  | some _ => .next found c size
  | none =>
    match Format.ofChunk? s.order ((s.file.drop c.next).take size) with
    | none => .refused
    | some f => .next { found with format := some f } (c.skip (Bytes.signed 4 size)) size

/-- The size of the chunk with the peaks of some channels. -/
def peaksSize (channels : Nat) : Nat := 8 + 8 * channels

/-- The chunk with the peaks. -/
def passPeaks (s : Source) (found : Contents) (size : Nat) (c : Cursor) : Passage :=
  match found.format with
  | none => .refused
  | some f =>
    if size = peaksSize f.channels then .next found (c.behind s.file size) size else .refused

/-- Whether a byte is a character that is seen, or a space. -/
def isVisible (b : UInt8) : Bool := 0x20 ≤ b.toNat && b.toNat ≤ 0x7e

/-- The least size that no chunk has. -/
def absurdSize : Nat := 0xffff0000

/-- The bytes by which a name is looked for again. -/
def resyncStep : Int := -3

/-- A chunk of no known name.  A name that cannot be one is looked for again a bit
further on, unless it stands in an even place. -/
def passUnknown (found : Contents) (name : Bytes) (size : Nat) (c : Cursor) : Passage :=
  if absurdSize ≤ size then .last found
  else if name.all isVisible then .next found (c.skip (Bytes.signed 4 size)) size
  else if c.reached % 4 = 0 then .last found
  else .next found (c.skip resyncStep) 0

/-- A chunk of some name and size, whose body begins at a cursor. -/
def pass (s : Source) (found : Contents) (name : Bytes) (size : Nat) (c : Cursor) : Passage :=
  let goOn (c : Cursor) : Passage := .next found c size
  if name = [0, 0, 0, 0] then .last found
  else
    match name.map fun b => Char.ofNat b.toNat with
    | ['f', 'm', 't', ' '] => s.passFormat found size c
    | ['d', 'a', 't', 'a'] => s.passData found size c
    | ['P', 'E', 'A', 'K'] => s.passPeaks found size c
    | ['f', 'a', 'c', 't'] => goOn (passFact s.file size c)
    | ['a', 'c', 'i', 'd'] => goOn (passTempo s.file size c)
    | ['c', 'u', 'e', ' '] => goOn (passCues s.order s.file size c)
    | ['s', 'm', 'p', 'l'] => goOn (passLoops s.order s.file size c)
    | ['L', 'I', 'S', 'T'] => goOn (passList s.order s.file size c)
    | ['I', 'N', 'F', 'O'] => goOn (passList s.order s.file size c)
    | ['R', 'I', 'F', 'F'] => .refused
    | ['R', 'I', 'F', 'X'] => .refused
    | _ => passUnknown found name size c

/-- The size of the file that has to be left for one more chunk to be looked for. -/
def restSize : Nat := 4

/-- What is found in the chunks from a cursor on, of which there are at most `bound`;
the chunk before has some size. -/
def contentsFrom (s : Source) (found : Contents) (before : Nat) (c : Cursor) : Nat → Option Contents
  | 0 => some found
  | bound + 1 =>
    if s.file.length ≤ before ∨ s.file.length ≤ c.reached + restSize then some found
    else
      let c := c.skip (before % 2 : Nat)
      let name := c.field s.file 4
      let c := c.behind s.file 4
      let size := c.number s.order s.file 4
      match s.pass found name size (c.behind s.file 4) with
      | .refused => none
      | .last found => some found
      | .next found c size => s.contentsFrom found size c bound

/-- What is found in all chunks. -/
def contents (s : Source) : Option Contents :=
  s.contentsFrom ⟨none, none⟩ 0 ⟨12, 12⟩ s.file.length

/-- The bytes that a file begins with, and its order of bytes. -/
def beginnings : List (Bytes × ByteOrder) :=
  [(Bytes.ofAscii "RIFF", .lowestFirst), (Bytes.ofAscii "RIFX", .highestFirst)]

/-- The source that a file is. -/
def ofFile? (file : Bytes) : Option Source :=
  match List.lookup (file.take 4) beginnings with
  | none => none
  | some order =>
    if (file.drop 8).take 4 = Bytes.ofAscii "WAVE" then
      some ⟨file, order, min (order.number ((file.drop 4).take 4)) (file.length - 8)⟩
    else none

end Source

/-- What the samples of other formats within a wave file begin with. -/
def foreignBeginnings : List Bytes := ["wvpk", "OggS"].map Bytes.ofAscii

/-- The format of a file, its order of bytes, and the bytes of its samples. -/
def parts? (file : Bytes) : Option (Format × ByteOrder × Bytes) :=
  match Source.ofFile? file with
  | none => none
  | some s =>
    match s.contents with
    | some ⟨some format, some range⟩ =>
      let size := min file.length (range.stop.getD file.length) - range.start
      let isBackward := range.start < file.length && range.stop.any (· < range.start)
      let isForeign := foreignBeginnings.contains (s.order.arrange ((file.drop range.start).take 4))
      if !format.isValid || isBackward || isForeign then none
      else some (format, s.order, (file.drop range.start).take size)
    | _ => none

end Orchestrion.Wav

import Orchestrion.Wav.Cursor

set_option autoImplicit false

/-!
# Chunks that are no samples

A file may have notes on its samples: loops, cue points, tempo, texts.  Nothing in
them matters for a clip but where they end.  That is not always where their size
says, because each kind is passed over field by field.
-/

namespace Orchestrion.Wav

/-- A size with the byte that an odd one is followed by. -/
def evenSize (size : Nat) : Nat := (size + size % 2) % Nat.pow 256 4

/-- A number of frames, and whatever follows it. -/
def passFact (file : Bytes) (size : Nat) (c : Cursor) : Cursor :=
  let c := c.behind file 4
  if 4 < size then c.skipRest size 4 else c

/-- The size of the fields about tempo. -/
def tempoSize : Nat := 24

/-- Tempo and key: fields of a fixed size, after which the place follows from the
size of the chunk. -/
def passTempo (file : Bytes) (size : Nat) (c : Cursor) : Cursor :=
  (c.behind file tempoSize).skipRest (evenSize size) tempoSize

/-- The greatest number of cue points that are read. -/
def maxCues : Nat := 2500

/-- The size of a cue point, and of a loop. -/
def cueSize : Nat := 24

/-- Cue points. -/
def passCues (order : ByteOrder) (file : Bytes) (size : Nat) (c : Cursor) : Cursor :=
  let count := c.number order file 4
  let c := c.behind file 4
  if maxCues < count then c.skipRest size 4
  else (c.behind file (cueSize * count)).skipRest size (4 + cueSize * count)

/-- The size of the fields about a sampler, without the last one. -/
def samplerSize : Nat := 32

/-- Loops of a sampler: their number is in the last of some fields; one more field
is left out only if the chunk ends there and there are no loops. -/
def passLoops (order : ByteOrder) (file : Bytes) (size : Nat) (c : Cursor) : Cursor :=
  let loops := (c.behind file (samplerSize - 4)).number order file 4
  let whole := evenSize size
  if samplerSize + 4 ≤ whole ∨ (whole = samplerSize ∧ loops = 0) then c.behind file whole
  else c.behind file (samplerSize + 4 + cueSize * loops)

/-! ## Lists of texts -/

/-- The names that stand in a list without a size. -/
def bareNames : List Bytes := ["adtl", "INFO"].map Bytes.ofAscii

/-- The names of texts. -/
def textNames : List Bytes :=
  ["ISFT", "ICOP", "IARL", "IART", "ICMT", "ICRD", "IENG", "IGNR", "INAM", "IPRD", "ISBJ", "ISRC",
    "IAUT", "ITRK"].map Bytes.ofAscii

/-- The names of parts with which a list is given up. -/
def lastNames : List Bytes := ["DISP", "ltxt", "note"].map Bytes.ofAscii

/-- The shortest text that is too long to be kept. -/
def textLimit : Nat := 2048

/-- The sum of two numbers of four bytes, which wraps around. -/
def sum32 (a b : Nat) : Nat := (a + b) % Nat.pow 256 4

/-- Passes over a list of some size, of which `read` bytes have been passed; it has
at most `bound` parts more.  Samples end a list before they begin. -/
def passParts (order : ByteOrder) (file : Bytes) (size read : Nat) (c : Cursor) : Nat → Cursor
  | 0 => c
  | bound + 1 =>
    if size ≤ read then c
    else if !c.hasField file 4 then c.behind file 4
    else
      let name := c.field file 4
      let c := c.behind file 4
      let read := read + 4
      if bareNames.contains name then passParts order file size read c bound
      else if name = Bytes.ofAscii "data" then c.skip (-4)
      else if name = [0, 0, 0, 0] then c.skip (size - read : Nat)
      else
        let part := c.number order file 4
        let c := c.behind file 4
        let read := read + 4
        if lastNames.contains name then c.skip (size - read : Nat)
        else if name = Bytes.ofAscii "labl" then
          let c := c.behind file 4
          let read := read + 4
          let part := evenSize (sum32 part (Nat.pow 256 4 - 4))
          if part < 1 ∨ textLimit ≤ part ∨ size < read + part then c.skip (size - read : Nat)
          else passParts order file size (read + part) (c.behind file part) bound
        else
          let part := evenSize part
          if textNames.contains name then
            if textLimit ≤ part ∨ size < read + part then c.skip (size - read : Nat)
            else passParts order file size (read + part) (c.behind file part) bound
          else if size < sum32 read part then c.skip ((size : Int) - read + 4)
          else
            let c := c.skip (Bytes.signed 4 part)
            if size ≤ part then c.skip ((size : Int) - sum32 read part)
            else passParts order file size (read + part) c bound

/-- The size up to which a list is taken for an empty one. -/
def emptyList : Nat := 8

/-- A list; it ends with the file if its size says more. -/
def passList (order : ByteOrder) (file : Bytes) (size : Nat) (c : Cursor) : Cursor :=
  if size ≤ emptyList then (c.behind file 4).skipRest size 4
  else passParts order file (min size (file.length - c.reached)) 0 c file.length

end Orchestrion.Wav

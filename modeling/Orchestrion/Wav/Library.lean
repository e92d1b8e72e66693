import Orchestrion.Files.Tree
import Orchestrion.Wav.Reader
import Orchestrion.Wav.Writer

set_option autoImplicit false

/-!
# Audio libraries

Clips are read and outputs are written by a library that is made elsewhere and knows
many formats.  What is done with it is written down for any such library, and
`AudioLibrary.wave` is the one that is run here.

Scope: what a library makes of a clip depends on its path and on what is found there,
and what it writes depends on the path, the sample rate and the samples.  It touches no
other file.  The channels of a clip have been brought together.

Deviation of the library that is run here: it reads and writes wave files only.  The
ending of the name tells the format of a file that is written, and any other one is
unknown.
-/

namespace Orchestrion

/-- What goes wrong in an audio library. -/
inductive AudioFault where
  /-- the library reports that a file cannot be read or written -/
  | reported
  /-- the name of a file does not tell its format -/
  | unknownFormat
  /-- a sample rate beyond the range of its field -/
  | rateTooLarge
  /-- anything else that is not reported, by its name -/
  | other (name : String)
  deriving DecidableEq, Repr

/-- What a library does to write a file. -/
inductive AudioWrite where
  /-- the file is not even opened -/
  | refused (fault : AudioFault)
  /-- all of the file is written -/
  | whole (content : Bytes)
  /-- the file is begun and then given up -/
  | abandoned (content : Bytes) (fault : AudioFault)
  deriving DecidableEq, Repr

/-- A library that reads and writes audio files. -/
structure AudioLibrary where
  /-- the path at which the file of a path is opened; none if it is too long for the
  library -/
  opens : String → Option String
  /-- the clip in what is found where the file of a path is opened -/
  read : String → FileState → Except AudioFault (Clip Float)
  /-- how samples of 16 bits, at a sample rate, are written to the file of a path -/
  write : String → Int → List Int → AudioWrite

namespace Wav

/-- The clip in what is found at a path. -/
def clipOf (state : FileState) : Except AudioFault (Clip Float) :=
  match state.content?.bind decode with
  | some clip => .ok clip
  | none => .error .reported

/-- How a wave file is written. -/
def writeOf (path : String) (rate : Int) (samples : List Int) : AudioWrite :=
  match fileOf path rate samples with
  | .ok content => .whole content
  | .error .rateTooSmall => .abandoned (abandoned rate) .reported
  | .error .unknownFormat => .refused .unknownFormat
  | .error .rateTooLarge => .refused .rateTooLarge

end Wav

/-- The library that is run here. -/
def AudioLibrary.wave : AudioLibrary := ⟨Path.audioPath?, fun _ => Wav.clipOf, Wav.writeOf⟩

end Orchestrion

import Orchestrion.Document.Number
import Orchestrion.Easing.Catalog
import Orchestrion.Formula.Fault
import Orchestrion.Signal.Bank

set_option autoImplicit false

/-!
# Faults of arrangement documents

A document that is no arrangement has one of the faults below.  Most of them are
explained to the author of the document (`ConfigFault.message`); a few show that
a value is of a kind that cannot be worked with at all.
-/

namespace Orchestrion

open Document (Value NumberFault)

/-- A place in an arrangement document. -/
inductive Place where
  | bank
  | bankNamed (name : Value)
  | waveform
  | waveformNamed (name : Value)
  | envelope
  | envelopeNamed (name : Value)
  /-- the phase at an index of an envelope -/
  | phase (envelope : Value) (index : Nat)
  | instrument
  | instrumentNamed (name : Value)
  /-- a modulator of an instrument -/
  | modulatorOf (instrument : Value)
  | output
  /-- the output of a file -/
  | outputTo (file : String)

/-- A text between apostrophes, as it is. -/
def apostrophes (s : String) : String := "'" ++ s ++ "'"

/-- How a place is called. -/
def Place.text : Place → String
  | .bank => "sample bank"
  | .bankNamed name => "sample bank " ++ apostrophes name.shown
  | .waveform => "waveform"
  | .waveformNamed name => "waveform " ++ apostrophes name.shown
  | .envelope => "envelope"
  | .envelopeNamed name => "envelope " ++ apostrophes name.shown
  | .phase owner index =>
    "envelope " ++ apostrophes owner.shown ++ " phase " ++ Decimal.natText index
  | .instrument => "instrument"
  | .instrumentNamed name => "instrument " ++ apostrophes name.shown
  | .modulatorOf owner => "instrument " ++ apostrophes owner.shown ++ " modulator"
  | .output => "output"
  | .outputTo file => "output " ++ apostrophes file

/-- Why the channels of an output are none. -/
inductive ChannelsFault where
  /-- a kind of value that has no items -/
  | noItems (typeName : String)
  | item (fault : NumberFault)

/-- What is said about channels that are none. -/
def ChannelsFault.message : ChannelsFault → String
  | .noItems typeName => apostrophes typeName ++ " object is not iterable"
  | .item fault => fault.message

/-- A fault that is explained to the author of the document. -/
inductive ConfigFault where
  /-- something else where a mapping has to be -/
  | notMapping (place : Place) (typeName : String)
  | missingKey (place : Place) (key : String)
  | metadataNotMapping
  | badMetadata (fault : NumberFault)
  /-- the files of a bank are no mapping -/
  | filesNotMapping (bank : Value)
  /-- a key of a bank's files that is no numeral -/
  | pitchNotNumeral (bank : Value) (key : String)
  /-- a key of a bank's files that is no integer -/
  | pitchBroken (bank : Value) (key : Document.Atom)
  | badEquation (waveform equation : Value) (fault : Formula.Fault)
  | badPhase (envelope : Value) (index : Nat) (fault : NumberFault)
  | unknownEasing (envelope : Value) (name : String)
  | unknownCarrier (instrument carrier : Value)
  | unknownModulator (instrument modulator : Value)
  | badDepth (instrument modulator : Value) (fault : NumberFault)
  | badProgram (instrument : Value) (fault : NumberFault)
  | badChannels (file : String) (fault : ChannelsFault)

/-- What is said about a fault. -/
def ConfigFault.message : ConfigFault → String
  | .notMapping place typeName => place.text ++ " must be a mapping, got " ++ typeName
  | .missingKey place key => place.text ++ " is missing required key " ++ apostrophes key
  | .metadataNotMapping => "Arrangement metadata must be a mapping"
  | .badMetadata fault => "Invalid metadata: " ++ fault.message
  | .filesNotMapping bank =>
    "Sample bank " ++ apostrophes bank.shown ++ " files must map MIDI pitches to clip paths"
  | .pitchNotNumeral bank key =>
    "Invalid sample bank " ++ apostrophes bank.shown ++ ": " ++ notRealMessage key
  | .pitchBroken bank key =>
    "Invalid sample bank " ++ apostrophes bank.shown ++ ": " ++ PitchKeyFault.brokenMessage key
  | .badEquation waveform equation fault =>
    "Invalid equation for " ++ (Place.waveformNamed waveform).text ++ " (" ++ equation.quoted ++
      "): " ++ fault.message
  | .badPhase envelope index fault =>
    "Invalid " ++ (Place.phase envelope index).text ++ ": " ++ fault.message
  | .unknownEasing envelope name =>
    "Invalid " ++ (Place.envelopeNamed envelope).text ++ ": " ++ Easing.unknownMessage name
  | .unknownCarrier instrument carrier =>
    (Place.instrumentNamed instrument).text ++ " uses unknown carrier " ++
      apostrophes carrier.shown ++ " (carriers must be a sample bank or a waveform)"
  | .unknownModulator instrument modulator =>
    (Place.instrumentNamed instrument).text ++ " uses unknown modulator " ++
      apostrophes modulator.shown ++ " (modulators must be a waveform or an envelope)"
  | .badDepth instrument modulator fault =>
    "Invalid depth for " ++ (Place.modulatorOf instrument).text ++ " " ++
      apostrophes modulator.shown ++ ": " ++ fault.message
  | .badProgram instrument fault =>
    "Invalid midi_inst for " ++ (Place.instrumentNamed instrument).text ++ ": " ++ fault.message
  | .badChannels file fault =>
    "Invalid channels for " ++ (Place.outputTo file).text ++ ": " ++ fault.message

/-- A value of a kind that cannot be worked with where it stands. -/
inductive KindFault where
  /-- a section that has no items -/
  | noItems
  /-- a list or a mapping where a name has to be -/
  | noName
  /-- something else than a text where a path has to be -/
  | noPath
  /-- null as the pitch of a clip -/
  | noPitch
  /-- a phase that cannot be asked for its entries -/
  | noPhase
  deriving DecidableEq, Repr

/-- Why a document is no arrangement. -/
inductive BuildFault where
  | config (fault : ConfigFault)
  | kind (fault : KindFault)
  /-- a number out of range -/
  | tooLarge
  /-- something else than a mapping as the document -/
  | noDocument

end Orchestrion

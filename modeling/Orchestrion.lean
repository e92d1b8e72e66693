import Orchestrion.Arrangement.Basic
import Orchestrion.Arrangement.Build
import Orchestrion.Arrangement.Fault
import Orchestrion.Arrangement.Load
import Orchestrion.Binary64
import Orchestrion.Bytes
import Orchestrion.CommandLine.Options
import Orchestrion.CommandLine.Program
import Orchestrion.CommandLine.Script
import Orchestrion.Context
import Orchestrion.Decimal.Basic
import Orchestrion.Decimal.Notation
import Orchestrion.Decimal.Numeral
import Orchestrion.Decimal.Rounding
import Orchestrion.Document.File
import Orchestrion.Document.Json
import Orchestrion.Document.Library
import Orchestrion.Document.Number
import Orchestrion.Document.Parser
import Orchestrion.Document.Value
import Orchestrion.Document.Yaml.Date
import Orchestrion.Document.Yaml.Lines
import Orchestrion.Document.Yaml.Node
import Orchestrion.Document.Yaml.Plain
import Orchestrion.Document.Yaml.Quotation
import Orchestrion.Document.Yaml.Reader
import Orchestrion.Document.Yaml.Scalar
import Orchestrion.Document.Yaml.Token
import Orchestrion.Easing.Catalog
import Orchestrion.Easing.Curves
import Orchestrion.Files.Path
import Orchestrion.Files.Tree
import Orchestrion.Formula.Eval
import Orchestrion.Formula.Expr
import Orchestrion.Formula.Fault
import Orchestrion.Formula.Lexer
import Orchestrion.Formula.Parser
import Orchestrion.Formula.Room
import Orchestrion.Instrument
import Orchestrion.Main
import Orchestrion.Midi.Event
import Orchestrion.Midi.Meta
import Orchestrion.Midi.Reader
import Orchestrion.Midi.Score
import Orchestrion.Midi.Timing
import Orchestrion.Mix.Pcm
import Orchestrion.Mix.Session
import Orchestrion.Mix.Slots
import Orchestrion.Pitch
import Orchestrion.Proofs.Arrangement.Faults
import Orchestrion.Proofs.Arrangement.Limit
import Orchestrion.Proofs.Arrangement.References
import Orchestrion.Proofs.Arrangement.Steps
import Orchestrion.Proofs.Binary64.Arithmetic
import Orchestrion.Proofs.Binary64.Encoding
import Orchestrion.Proofs.Binary64.Faithful
import Orchestrion.Proofs.Binary64.Nearest
import Orchestrion.Proofs.Binary64.Packing
import Orchestrion.Proofs.Binary64.Rounding
import Orchestrion.Proofs.Binary64.Unpacked
import Orchestrion.Proofs.Binary64.Value
import Orchestrion.Proofs.Context
import Orchestrion.Proofs.Formula.Depth
import Orchestrion.Proofs.Formula.Grammar
import Orchestrion.Proofs.Formula.Reading
import Orchestrion.Proofs.Formula.Room
import Orchestrion.Proofs.Formula.Substitution
import Orchestrion.Proofs.Formula.Viability
import Orchestrion.Proofs.Mix.Bus
import Orchestrion.Proofs.Mix.Delay
import Orchestrion.Proofs.Mix.Independence
import Orchestrion.Proofs.Mix.Leniency
import Orchestrion.Proofs.Mix.Padding
import Orchestrion.Proofs.Mix.Pcm
import Orchestrion.Proofs.Mix.Performance
import Orchestrion.Proofs.Mix.Playable
import Orchestrion.Proofs.Mix.Slots
import Orchestrion.Proofs.Scalar.Counting
import Orchestrion.Proofs.Scalar.Exact
import Orchestrion.Proofs.Scalar.Faithful
import Orchestrion.Proofs.Scalar.Rounded
import Orchestrion.Proofs.Score.Bracket
import Orchestrion.Proofs.Score.Channels
import Orchestrion.Proofs.Score.Clock
import Orchestrion.Proofs.Score.Notes
import Orchestrion.Proofs.Score.Pairing
import Orchestrion.Proofs.Signal.Cache
import Orchestrion.Proofs.Signal.Coherence
import Orchestrion.Proofs.Signal.Confined
import Orchestrion.Proofs.Signal.Recency
import Orchestrion.Proofs.Signal.Stage
import Orchestrion.Scalar
import Orchestrion.Score.Matching
import Orchestrion.Score.Note
import Orchestrion.Signal.Bank
import Orchestrion.Signal.Cache
import Orchestrion.Signal.Envelope
import Orchestrion.Signal.Fault
import Orchestrion.Signal.Registry
import Orchestrion.Signal.Resample
import Orchestrion.Signal.Source
import Orchestrion.Signal.Waveform
import Orchestrion.Text.CaseRanges
import Orchestrion.Text.Class
import Orchestrion.Text.DigitRanges
import Orchestrion.Text.HiddenRanges
import Orchestrion.Text.LowerCase
import Orchestrion.Text.Quoted
import Orchestrion.Text.WordRanges
import Orchestrion.Wav.Encoding
import Orchestrion.Wav.Library
import Orchestrion.Wav.Reader
import Orchestrion.Wav.Writer
import Orchestrion.Proofs.Mix.Places
import Orchestrion.Proofs.Mix.Outputs
import Orchestrion.Proofs.CommandLine.Outputs
import Orchestrion.Proofs.Mix.Outcome
import Orchestrion.Proofs.Binary64.Special
import Orchestrion.Proofs.Formula.Segmentation
import Orchestrion.Proofs.Formula.Failure
import Orchestrion.Proofs.Mix.Silence
import Orchestrion.Proofs.Easing.Shape
import Orchestrion.Proofs.Signal.Attenuation
import Orchestrion.Proofs.Formula.Separation
import Orchestrion.Proofs.Signal.Substitute
import Orchestrion.Proofs.Scalar.Whole
import Orchestrion.Proofs.Binary64.Integers
import Orchestrion.Proofs.Signal.Resample
import Orchestrion.Proofs.Easing.Domain
import Orchestrion.Proofs.Signal.Envelope
import Orchestrion.Proofs.Scalar.Windows
import Orchestrion.Proofs.Signal.Precedence
import Orchestrion.Proofs.Signal.Coverage
import Orchestrion.Proofs.Document.Library
import Orchestrion.Proofs.CommandLine.Course
import Orchestrion.Proofs.Easing.Ends
import Orchestrion.Proofs.Easing.Symmetry
import Orchestrion.Proofs.Scalar.Levels
import Orchestrion.Proofs.Binary64.Quotient
import Orchestrion.Proofs.Mix.Levels
import Orchestrion.Proofs.Binary64.Single
import Orchestrion.Proofs.Wav.Samples
import Orchestrion.Proofs.Wav.RoundTrip
import Orchestrion.Proofs.Easing.Rising
import Orchestrion.Proofs.Formula.Descent
import Orchestrion.Proofs.Midi.Reader
import Orchestrion.Proofs.Binary64.Bounds
import Orchestrion.Proofs.Score.Range
import Orchestrion.Proofs.Midi.Timing
import Orchestrion.Proofs.Midi.Outcome
import Orchestrion.Proofs.Document.Json
import Orchestrion.Proofs.Document.Yaml.Date
import Orchestrion.Proofs.Document.Yaml.Excess
import Orchestrion.Proofs.Document.Yaml.Plain
import Orchestrion.Proofs.Document.Yaml.Quotation
import Orchestrion.Proofs.Document.Yaml.Token
import Orchestrion.Proofs.Document.Yaml.Reader
import Orchestrion.Proofs.Document.Outcome
import Orchestrion.Proofs.Document.Parser

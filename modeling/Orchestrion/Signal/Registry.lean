import Orchestrion.Signal.Source
import Orchestrion.Text.LowerCase

set_option autoImplicit false

/-!
# A registry of source classes

Sources can be made by the name of their kind.  The registry says which class of
sources a name stands for; capital and small letters are the same.  A class is
given named arguments, exactly those that it asks for.
-/

namespace Orchestrion

/-- A class of sources. -/
inductive SourceClass where
  | waveform
  | envelope
  | bank
  /-- sources that never have a value -/
  | silent
  deriving DecidableEq, Repr, Inhabited

namespace SourceClass

/-- The kind of the sources of a class. -/
def kind : SourceClass → String
  | .waveform => "waveform"
  | .envelope => "envelope"
  | .bank => "sample_bank"
  | .silent => "source"

/-- The name of a class. -/
def title : SourceClass → String
  | .waveform => "Waveform"
  | .envelope => "Envelope"
  | .bank => "SampleBank"
  | .silent => "SignalSource"

/-- The class of a name. -/
def ofTitle? : String → Option SourceClass
  | "Waveform" => some .waveform
  | "Envelope" => some .envelope
  | "SampleBank" => some .bank
  | "SignalSource" => some .silent
  | _ => none

end SourceClass

/-- Named arguments of a class; a name that no class asks for is `extra`. -/
structure SourceArguments (α : Type) where
  name : Option String
  equation : Option String
  phases : Option (List (Span α × String))
  files : Option (List (Document.Atom × String))
  extra : Bool

/-- Why no source has been made. -/
inductive RegistryFault where
  | unknownKind (kind : String)
  /-- arguments that are not those the class asks for -/
  | arguments
  | formula (fault : Formula.Fault)
  | unknownEasing (name : String)
  | pitchKey (fault : PitchKeyFault)

/-- What is said about a kind that is not registered. -/
def unknownKindMessage (kind : String) : String :=
  "No signal source registered for kind '" ++ kind ++ "'"

/-- A source that has been made, by itself on a rack of its own. -/
structure MadeSource (α : Type) where
  sourceClass : SourceClass
  name : String
  /-- `none` for a source that never has a value -/
  source : Option (Source α)
  rack : List (Bank α)

namespace MadeSource

variable {α : Type}

/-- A source as it is shown. -/
def shown (m : MadeSource α) : String :=
  m.sourceClass.title ++ "(name=" ++ Text.quoted m.name ++ ")"

variable [Scalar α]

/-- The value as a carrier. -/
def carrier (m : MadeSource α) (ctx : Context α) : Except Fault (Option α) :=
  match m.source with
  | some source => (source.carrier ctx (.ofRack m.rack)).1
  | none => .ok none

/-- The value as a modulator. -/
def modulation (m : MadeSource α) (ctx : Context α) : Except Fault (Option α) :=
  match m.source with
  | some source => source.modulation ctx
  | none => .ok none

end MadeSource

namespace SourceClass

variable {α : Type} [Scalar α]

/-- A source of a class, from its arguments. -/
def make (c : SourceClass) (args : SourceArguments α) : Except RegistryFault (MadeSource α) :=
  match c, args with
  | .waveform, ⟨some name, some equation, none, none, false⟩ =>
    match Waveform.ofEquation (.text name) equation with
    | .ok w => .ok ⟨c, name, some (.waveform w), []⟩
    | .error fault => .error (.formula fault)
  | .envelope, ⟨some name, none, some phases, none, false⟩ =>
    match Envelope.phasesOf phases with
    | .ok phases => .ok ⟨c, name, some (.envelope ⟨.text name, phases⟩), []⟩
    | .error unknown => .error (.unknownEasing unknown)
  | .bank, ⟨some name, none, none, some files, false⟩ =>
    match Bank.ofFiles (.text name) none files with
    | .ok b => .ok ⟨c, name, some (.bank 0), [b]⟩
    | .error fault => .error (.pitchKey fault)
  | .silent, ⟨name, none, none, none, false⟩ => .ok ⟨c, name.getD "", none, []⟩
  | _, _ => .error .arguments

end SourceClass

/-- Which class of sources each kind stands for. -/
structure SourceRegistry where
  entries : List (String × SourceClass)
  deriving Repr

namespace SourceRegistry

/-- The kinds that are always there. -/
def initial : SourceRegistry :=
  ⟨[SourceClass.waveform, .envelope, .bank].map fun c => (c.kind, c)⟩

/-- The class of a kind. -/
def find? (r : SourceRegistry) (kind : String) : Option SourceClass :=
  List.lookup (Text.lower kind) r.entries

/-- Whether a kind is registered. -/
def contains (r : SourceRegistry) (kind : String) : Bool := (r.find? kind).isSome

/-- Takes a kind out. -/
def erase (r : SourceRegistry) (kind : String) : SourceRegistry :=
  ⟨r.entries.filter fun e => e.1 != Text.lower kind⟩

/-- Registers a class under a kind, in place of any other. -/
def insert (r : SourceRegistry) (kind : String) (c : SourceClass) : SourceRegistry :=
  ⟨(Text.lower kind, c) :: (r.erase kind).entries⟩

/-- The kinds in alphabetical order. -/
def kinds (r : SourceRegistry) : List String :=
  (r.entries.map Prod.fst).mergeSort fun a b => a ≤ b

/-- A source of a kind, from its arguments. -/
def make {α : Type} [Scalar α] (r : SourceRegistry) (kind : String) (args : SourceArguments α) :
    Except RegistryFault (MadeSource α) :=
  match r.find? kind with
  | some c => c.make args
  | none => .error (.unknownKind kind)

end SourceRegistry

end Orchestrion

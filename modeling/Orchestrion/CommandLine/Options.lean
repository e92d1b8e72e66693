import Orchestrion.Text.Class
import Orchestrion.Text.Quoted

set_option autoImplicit false

/-!
# Options of the command line

Arguments are options, which begin with a dash, and operands.  A long option may
be shortened as long as it can be told from the others, and takes its value from
the next argument or after an equals sign.  Short options may be written
together, the value of the last one with them.  After two dashes all arguments
are operands.
-/

namespace Orchestrion.CommandLine

/-- What is asked for. -/
structure Options where
  /-- the path of the arrangement -/
  config : String
  /-- the path of the score -/
  midi : Option String
  /-- the folder of outputs whose paths are relative -/
  outputDir : Option String
  /-- whether notes that no instrument plays are left out -/
  lenient : Bool
  verbose : Bool
  deriving DecidableEq, Repr

/-- An option. -/
inductive Flag where
  | help
  | midi
  | outputDir
  | lenient
  | verbose
  deriving DecidableEq, Repr

namespace Flag

/-- The ways to write the options. -/
def spellings : List (String × Flag) :=
  [("-h", .help), ("--help", .help), ("--midi", .midi), ("-m", .midi), ("--output-dir", .outputDir),
    ("-o", .outputDir), ("--lenient", .lenient), ("--verbose", .verbose), ("-v", .verbose)]

/-- All ways to write an option, as they are shown. -/
def title (f : Flag) : String :=
  "/".intercalate ((spellings.filter fun s => s.2 = f).map Prod.fst)

/-- Whether an option has a value. -/
def takesValue : Flag → Bool
  | .midi => true
  | .outputDir => true
  | _ => false

end Flag

/-- Why arguments are not understood. -/
inductive UsageFault where
  | missingConfig
  | unrecognized (arguments : List String)
  | ambiguous (argument : String) (spellings : List String)
  | missingValue (flag : Flag)
  /-- a value for an option that has none -/
  | surplusValue (flag : Flag) (value : String)
  deriving DecidableEq, Repr

/-- What is said about arguments that are not understood. -/
def UsageFault.message : UsageFault → String
  | .missingConfig => "the following arguments are required: config"
  | .unrecognized arguments => "unrecognized arguments: " ++ " ".intercalate arguments
  | .ambiguous argument spellings =>
    "ambiguous option: " ++ argument ++ " could match " ++ ", ".intercalate spellings
  | .missingValue flag => "argument " ++ flag.title ++ ": expected one argument"
  | .surplusValue flag value =>
    "argument " ++ flag.title ++ ": ignored explicit argument " ++ Text.quoted value

/-- The name of the program. -/
def programName : String := "midisynth"

/-- What is told about arguments that are not understood. -/
def UsageFault.line (fault : UsageFault) : String :=
  programName ++ ": error: " ++ fault.message

/-- How the program is called. -/
def usageLine : String :=
  "usage: " ++ programName ++
    " [-h] [--midi MIDI] [--output-dir OUTPUT_DIR] [--lenient] [--verbose] config"

/-! ## Single arguments -/

/-- What an argument is. -/
inductive Argument where
  | operand (s : String)
  /-- two dashes -/
  | separator
  /-- an option, whether it is written short, and the value written with it -/
  | option (flag : Flag) (isShort : Bool) (value : Option String)
  /-- an option that there is not -/
  | unknown (s : String)
  deriving DecidableEq, Repr

/-- Whether an option is written short. -/
def isShort (spelling : String) : Bool := spelling.length == 2

/-- A text in front of an equals sign, and what follows it. -/
def splitValue (s : String) : String × Option String :=
  let front := s.toList.takeWhile (· != '=')
  match s.toList.dropWhile (· != '=') with
  | _ :: value => (String.ofList front, some (String.ofList value))
  | [] => (s, none)

/-- A text without the line feed at its end. -/
def withoutLineEnd (s : List Char) : List Char :=
  match s.reverse with
  | '\n' :: rest => rest.reverse
  | _ => s

/-- Whether an argument is a negative number; a line may end behind it. -/
def isNegativeNumber (s : String) : Bool :=
  let isDigit (c : Char) : Bool := (Text.decimalValue? c).isSome
  match withoutLineEnd s.toList with
  | '-' :: body =>
    let places := body.dropWhile isDigit
    match places with
    | [] => !body.isEmpty
    | '.' :: places => !places.isEmpty && places.all isDigit
    | _ => false
  | _ => false

/-- The options that an argument may stand for, by how they are written. -/
def candidates (s : String) : List (String × Argument) :=
  if s.startsWith "--" then
    let (front, value) := splitValue s
    (Flag.spellings.filter fun x => x.1.startsWith front).map fun x =>
      (x.1, .option x.2 (isShort x.1) value)
  else
    (Flag.spellings.filter fun x => x.1 == String.ofList (s.toList.take 2)).map fun x =>
      (x.1, .option x.2 true (some (String.ofList (s.toList.drop 2))))

/-- What an argument is that does not stand after two dashes. -/
def classify (s : String) : Except UsageFault Argument :=
  if s == "--" then .ok .separator
  else if !s.startsWith "-" || s == "-" then .ok (.operand s)
  else
    match List.lookup s Flag.spellings with
    | some flag => .ok (.option flag (isShort s) none)
    | none =>
      let (front, value) := splitValue s
      match value, List.lookup front Flag.spellings with
      | some value, some flag => .ok (.option flag (isShort front) (some value))
      | _, _ =>
        match candidates s with
        | [(_, argument)] => .ok argument
        | [] =>
          if isNegativeNumber s || s.toList.contains ' ' then .ok (.operand s)
          else .ok (.unknown s)
        | several => .error (.ambiguous s (several.map Prod.fst))

/-- What all arguments are. -/
def classifyAll : List String → Except UsageFault (List Argument)
  | [] => .ok []
  | s :: rest =>
    match classify s with
    | .error fault => .error fault
    | .ok .separator => .ok (.separator :: rest.map Argument.operand)
    | .ok argument =>
      match classifyAll rest with
      | .error fault => .error fault
      | .ok arguments => .ok (argument :: arguments)

/-! ## All arguments -/

/-- What has been understood so far. -/
structure Seen where
  config : Option String
  midi : Option String
  outputDir : Option String
  lenient : Bool
  verbose : Bool
  help : Bool
  /-- the arguments that have no meaning, the last one first -/
  extras : List String

namespace Seen

/-- Before all arguments. -/
def start : Seen := ⟨none, none, none, false, false, false, []⟩

/-- An option without a value. -/
def set (seen : Seen) : Flag → Seen
  | .help => { seen with help := true }
  | .lenient => { seen with lenient := true }
  | .verbose => { seen with verbose := true }
  | _ => seen

/-- An option with its value. -/
def setValue (seen : Seen) (value : String) : Flag → Seen
  | .midi => { seen with midi := some value }
  | .outputDir => { seen with outputDir := some value }
  | _ => seen

/-- An argument without meaning. -/
def extra (seen : Seen) (s : String) : Seen := { seen with extras := s :: seen.extras }

end Seen

/-- Short options written together, the rest of which is `chars`; the option that
still awaits its value, if there is one. -/
def cluster (seen : Seen) (flag : Flag) (chars : List Char) :
    Except UsageFault (Seen × Option Flag) :=
  if flag.takesValue then .ok (seen.setValue (String.ofList chars) flag, none)
  else
    match chars with
    | [] => .error (.surplusValue flag "")
    | c :: rest =>
      match List.lookup (String.ofList ['-', c]) Flag.spellings with
      | none => .error (.surplusValue flag (String.ofList (c :: rest)))
      | some next =>
        let seen := seen.set flag
        match rest with
        | [] => .ok (if next.takesValue then (seen, some next) else (seen.set next, none))
        | d :: more => cluster seen next (d :: more)

/-- An option; the option that still awaits its value, if there is one. -/
def option (seen : Seen) (flag : Flag) (isShort : Bool) (value : Option String) :
    Except UsageFault (Seen × Option Flag) :=
  match value with
  | none => .ok (if flag.takesValue then (seen, some flag) else (seen.set flag, none))
  | some value =>
    if flag.takesValue then .ok (seen.setValue value flag, none)
    else if isShort then cluster seen flag value.toList
    else .error (.surplusValue flag value)

/-- What is asked for: help, or work. -/
inductive Request where
  | help
  | work (o : Options)
  deriving DecidableEq, Repr

/-- What is asked for after all arguments. -/
def Seen.request (seen : Seen) : Except UsageFault Request :=
  match seen.config with
  | none => .error .missingConfig
  | some config =>
    if seen.extras.isEmpty then
      .ok (.work ⟨config, seen.midi, seen.outputDir, seen.lenient, seen.verbose⟩)
    else .error (.unrecognized seen.extras.reverse)

/-- Reads the arguments that are left, the first of which may be the value that
an option awaits.  Two dashes next to the operand that is asked for say nothing
more. -/
def consume (seen : Seen) (awaiting : Option Flag) : List Argument → Except UsageFault Request
  | [] =>
    match awaiting with
    | some flag => .error (.missingValue flag)
    | none => seen.request
  | argument :: rest =>
    match awaiting, argument with
    | some flag, .operand s =>
      if seen.help then .ok .help else consume (seen.setValue s flag) none rest
    | some flag, _ => .error (.missingValue flag)
    | none, .option flag isShort value =>
      match option seen flag isShort value with
      | .error fault => .error fault
      | .ok (seen, awaiting) =>
        if seen.help && awaiting.isNone then .ok .help else consume seen awaiting rest
    | none, .unknown s => consume (seen.extra s) none rest
    | none, .operand s =>
      match seen.config, rest with
      | none, .separator :: rest => consume { seen with config := some s } none rest
      | none, rest => consume { seen with config := some s } none rest
      | some _, rest => consume (seen.extra s) none rest
    | none, .separator =>
      if seen.config.isNone && !rest.isEmpty then consume seen none rest
      else consume (seen.extra "--") none rest

/-- What is asked for by some arguments. -/
def request (arguments : List String) : Except UsageFault Request :=
  match classifyAll arguments with
  | .error fault => .error fault
  | .ok arguments => consume .start none arguments

end Orchestrion.CommandLine

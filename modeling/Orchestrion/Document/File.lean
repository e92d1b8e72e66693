import Orchestrion.Document.Parser
import Orchestrion.Files.Tree

set_option autoImplicit false

/-!
# Documents in files

A document is written in JSON, or in YAML if the name of its file says so.  The
text of a file is UTF-8; the end of a line may be written in any of the usual
ways.
-/

namespace Orchestrion.Document

/-- Why a file gives no document. -/
inductive LoadFault where
  | notFound (path : String)
  /-- a folder in place of a file -/
  | folder (path : String)
  | badJson (path : String)
  | badYaml (path : String)
  /-- a document that is no mapping -/
  | notMapping (path : String)
  /-- a path that is too long, or has a name that is -/
  | longPath
  /-- what goes wrong and is not explained -/
  | stray (fault : StrayFault)
  deriving DecidableEq, Repr

/-- What is said about a file that gives no document; a few faults are not
explained.  What a parser adds to it in its own words is left out. -/
def LoadFault.message? : LoadFault → Option String
  | .notFound path => some ("Configuration file not found: " ++ path)
  | .folder path =>
    some ("Failed to load configuration file " ++ path ++ ": [Errno 21] Is a directory: " ++
      Text.quoted path)
  | .badJson path => some ("Failed to parse JSON file " ++ path)
  | .badYaml path => some ("Failed to parse YAML file " ++ path)
  | .notMapping path => some ("Arrangement document " ++ path ++ " must be a mapping")
  | .longPath => none
  | .stray _ => none

/-- The endings of the names of YAML files. -/
def yamlSuffixes : List String := [".yaml", ".yml"]

/-- Whether a file is written in YAML. -/
def isYaml (path : Path) : Bool :=
  yamlSuffixes.contains (String.ofList (path.suffix.map Char.toLower))

/-- The value in a file.  In YAML, one that does not count as true is an empty
mapping. -/
def Parsers.parse (parsers : Parsers) (path : Path) (content : Bytes) : Except ParserFault Value :=
  if isYaml path then (parsers.yaml content).map fun v => if v.isTrue then v else .map []
  else
    match textOf? content with
    | none => .error (.stray .notText)
    | some text => parsers.json text

/-- The fault of a file that its parser gives no value for. -/
def LoadFault.ofParser (path : Path) : ParserFault → LoadFault
  | .malformed => if isYaml path then .badYaml path.text else .badJson path.text
  | .stray fault => .stray fault

/-- Whether a path has a zero character, which no path of a file has. -/
def hasZero (path : Path) : Bool := path.text.contains '\x00'

/-- The document in what is found at a path. -/
def ofFile (parsers : Parsers) (path : Path) (state : FileState) : Except LoadFault Value :=
  if hasZero path then .error (.stray .outOfRange)
  else
    match state with
    | .missing => .error (.notFound path.text)
    | .folder => .error (.folder path.text)
    | .tooLong => .error .longPath
    | .file content =>
      match parsers.parse path content with
      | .error fault => .error (.ofParser path fault)
      | .ok (.map entries) => .ok (.map entries)
      | .ok _ => .error (.notMapping path.text)

end Orchestrion.Document

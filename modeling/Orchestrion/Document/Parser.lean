import Orchestrion.Bytes
import Orchestrion.Document.Json
import Orchestrion.Document.Yaml.Reader

set_option autoImplicit false

/-!
# Parsers of documents

A document is read by one of two parsers, one for each language.  They are made
elsewhere, so what is done with files and libraries is written down for any two of
them, and `Parsers.builtIn` are those that are run here.  A parser reports what is
not written in its language; whatever else goes wrong in it comes out as it is.

Scope: a parser gives values as they are in `Value`, and the same value for the same
file.  Texts are made of characters, so half a pair of surrogates, which an escape can
write, has no place in them.  Where a parser finds a value of another kind, such as a
date, bytes or a set, what stands for it here is up to the parser.

Deviations of the parsers that are run here: nesting is not limited, so that no
document is too deep; half a pair of surrogates is read as a replacement character; a
file in YAML is decoded as a whole, so bytes that are no text come before any other
fault of it; and of YAML, tags, anchors, aliases, block scalars and directives are
refused, and a date is kept as its text.
-/

namespace Orchestrion.Document

/-- What goes wrong in a parser and is not reported as a fault of the text. -/
inductive StrayFault where
  /-- bytes that are no text -/
  | notText
  /-- a number, a character or a path out of range -/
  | outOfRange
  /-- a number that is too large to be computed with -/
  | tooLarge
  /-- anything else, by its name -/
  | other (name : String)
  deriving DecidableEq, Repr

/-- Why a parser gives no value. -/
inductive ParserFault where
  /-- the text is not written as a document is -/
  | malformed
  | stray (fault : StrayFault)
  deriving DecidableEq, Repr

/-- A parser for each language. -/
structure Parsers where
  /-- the value of a text in JSON -/
  json : String → Except ParserFault Value
  /-- the value of a file in YAML; the parser decodes it by itself, as far as it needs -/
  yaml : Bytes → Except ParserFault Value

/-! ## Text of a file -/

/-- A text whose lines all end in the same way; what has been found comes last
one first. -/
def unifiedFrom (found : List Char) : List Char → List Char
  | [] => found.reverse
  | '\r' :: '\n' :: rest => unifiedFrom ('\n' :: found) rest
  | '\r' :: rest => unifiedFrom ('\n' :: found) rest
  | c :: rest => unifiedFrom (c :: found) rest

/-- The text of a file. -/
def textOf? (content : Bytes) : Option String :=
  (String.fromUTF8? ⟨content.toArray⟩).map fun s => String.ofList (unifiedFrom [] s.toList)

/-! ## The parsers that are run here -/

/-- The value of a text in JSON; an integer of too many digits is out of range. -/
def Json.parse (text : String) : Except ParserFault Value :=
  match Json.read text with
  | .ok v => .ok v
  | .error .malformed => .error .malformed
  | .error (.integerTooLong _) => .error (.stray .outOfRange)

/-- The value of a file in YAML. -/
def Yaml.parse (content : Bytes) : Except ParserFault Value :=
  match textOf? content with
  | none => .error (.stray .notText)
  | some text =>
    match Yaml.read text with
    | .ok v => .ok v
    | .error .malformed => .error .malformed
    | .error .outOfRange => .error (.stray .outOfRange)
    | .error .tooLarge => .error (.stray .tooLarge)

/-- The parsers that are run here. -/
def Parsers.builtIn : Parsers := ⟨Json.parse, Yaml.parse⟩

end Orchestrion.Document

import Orchestrion.Document.Value
import Orchestrion.Decimal.Numeral

set_option autoImplicit false

/-!
# Numbers in a document

Where a document has to give a number, it may give it as a number, as a truth
value or as a text.  An integer is taken from a real number by dropping its
places.
-/

namespace Orchestrion.Document

/-- Why a value gives no number. -/
inductive NumberFault where
  /-- a text that is no integer -/
  | notInteger (s : String)
  /-- a text that is no real number -/
  | notReal (s : String)
  /-- a text that is an integer of too many digits -/
  | tooManyDigits (digits : Nat)
  /-- a kind of value that gives no integer -/
  | noInteger (typeName : String)
  /-- a kind of value that gives no real number -/
  | noReal (typeName : String)
  /-- the integer of a number that is none -/
  | nan
  /-- a number out of range -/
  | tooLarge
  deriving DecidableEq, Repr

/-- The longest quotation in a message, in characters. -/
def maxQuotation : Nat := 200

/-- What is said about a value that gives no number. -/
def NumberFault.message : NumberFault → String
  | .notInteger s =>
    "invalid literal for int() with base 10: " ++
      String.ofList ((Text.quoted s).toList.take maxQuotation)
  | .notReal s => "could not convert string to float: " ++ Text.quoted s
  | .tooManyDigits digits =>
    "Exceeds the limit (" ++ Decimal.natText Decimal.maxIntegerDigits ++
      " digits) for integer string conversion: value has " ++ Decimal.natText digits ++
      " digits; use sys.set_int_max_str_digits() to increase the limit"
  | .noInteger typeName =>
    "int() argument must be a string, a bytes-like object or a real number, not '" ++ typeName ++
      "'"
  | .noReal typeName => "float() argument must be a string or a real number, not '" ++ typeName ++ "'"
  | .nan => "cannot convert float NaN to integer"
  | .tooLarge => "cannot convert to a number in range"

namespace Value

/-- The integer that a value gives. -/
def toInteger : Value → Except NumberFault Int
  | .atom (.bool b) => .ok (if b then 1 else 0)
  | .atom (.int n) => .ok n
  | .atom (.real x) =>
    match Scalar.truncate x with
    | .ok n => .ok n
    | .error .overflow => .error .tooLarge
    | .error _ => .error .nan
  | .atom (.text s) =>
    match Decimal.readInteger s with
    | .value n => .ok n
    | .tooLong digits => .error (.tooManyDigits digits)
    | .malformed => .error (.notInteger s)
  | v => .error (.noInteger v.typeName)

/-- The real number that a value gives. -/
def toReal : Value → Except NumberFault Float
  | .atom (.bool b) => .ok (if b then 1.0 else 0.0)
  | .atom (.int n) =>
    match Scalar.ofInt n with
    | .ok x => .ok x
    | .error _ => .error .tooLarge
  | .atom (.real x) => .ok x
  | .atom (.text s) =>
    match Decimal.readReal s with
    | some x => .ok x
    | none => .error (.notReal s)
  | v => .error (.noReal v.typeName)

end Value

end Orchestrion.Document

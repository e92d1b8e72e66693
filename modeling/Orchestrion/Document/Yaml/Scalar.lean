import Orchestrion.Decimal.Numeral
import Orchestrion.Document.Value
import Orchestrion.Document.Yaml.Date
import Orchestrion.Document.Yaml.Lines
import Orchestrion.Scalar

set_option autoImplicit false

/-!
# What plain text stands for

A text without quotes may be null, a truth value or a number; otherwise it is a
text.  Integers are written in base two, eight, ten, sixteen or sixty, real
numbers with a point, and underscores between digits do not count.

Deviations: a date stays a text, if there is such a date, and the two words for merging
mappings and for default values are refused.
-/

namespace Orchestrion.Document.Yaml

/-- The ways to write null. -/
def nullWords : List String := ["", "~", "null", "Null", "NULL"]

/-- The ways to write true. -/
def trueWords : List String :=
  ["yes", "Yes", "YES", "true", "True", "TRUE", "on", "On", "ON"]

/-- The ways to write false. -/
def falseWords : List String :=
  ["no", "No", "NO", "false", "False", "FALSE", "off", "Off", "OFF"]

/-- The ways to write an infinity, after a sign. -/
def infinityWords : List String := [".inf", ".Inf", ".INF"]

/-- The ways to write the number that is none. -/
def nanWords : List String := [".nan", ".NaN", ".NAN"]

/-- The texts that stand for something that a document cannot hold. -/
def refusedWords : List String := ["=", "<<"]

/-! ## Digits -/

/-- The value of a hexadecimal digit. -/
def digitValue (c : Char) : Nat :=
  if c ≤ '9' then c.toNat - '0'.toNat
  else if c ≤ 'F' then c.toNat - 'A'.toNat + 10
  else c.toNat - 'a'.toNat + 10

/-- The number of some digits in a base. -/
def ofBase (base : Nat) (digits : List Char) : Nat :=
  digits.foldl (fun n c => base * n + digitValue c) 0

/-- Whether a character is a digit below a limit, or an underscore. -/
def isDigitBelow (limit : Nat) (c : Char) : Bool :=
  c == '_' || (('0' ≤ c && c ≤ '9') && digitValue c < limit)

/-- Whether a character is a hexadecimal digit, or an underscore. -/
def isHexadecimal (c : Char) : Bool :=
  c == '_' || ('0' ≤ c && c ≤ '9') || ('a' ≤ c && c ≤ 'f') || ('A' ≤ c && c ≤ 'F')

/-- The characters that are no underscores. -/
def withoutUnderscores (cs : List Char) : List Char := cs.filter (· != '_')

/-- A number in a base from its digits; there has to be one. -/
def inBase (base : Nat) (cs : List Char) : Except Fault Nat :=
  match withoutUnderscores cs with
  | [] => .error .outOfRange
  | digits => .ok (ofBase base digits)

/-- Whether a text begins with a digit and goes on with digits and underscores. -/
def isWhole : List Char → Bool
  | [] => false
  | c :: rest => c != '_' && isDigitBelow 10 c && rest.all (isDigitBelow 10)

/-! ## Base sixty -/

/-- The parts of a text between colons. -/
def partsFrom (part : List Char) : List Char → List (List Char)
  | [] => [part.reverse]
  | c :: rest => if c = ':' then part.reverse :: partsFrom [] rest else partsFrom (c :: part) rest

/-- Whether a text is a number below sixty, of one or two digits. -/
def isSixtieth : List Char → Bool
  | [c] => '0' ≤ c && c ≤ '9'
  | [c, d] => '0' ≤ c && c ≤ '5' && '0' ≤ d && d ≤ '9'
  | _ => false

/-- Whether a text is written in base sixty. -/
def isSexagesimal (s : List Char) : Bool :=
  match partsFrom [] s with
  | first :: second :: rest => isWhole first && (second :: rest).all isSixtieth
  | _ => false

/-- A number in base ten, which must not have too many digits. -/
def inTen (digits : List Char) : Except Fault Nat :=
  if Decimal.maxIntegerDigits < digits.length then .error .outOfRange
  else .ok (ofBase 10 digits)

/-- The number of parts in base sixty, after the number of those before them. -/
def ofSixtieths (sum : Nat) : List (List Char) → Except Fault Nat
  | [] => .ok sum
  | part :: rest =>
    match inTen (withoutUnderscores part) with
    | .error fault => .error fault
    | .ok n => ofSixtieths (60 * sum + n) rest

/-- The real number of parts in base sixty, the last one first.  Every part is
weighed on its own, and each sum is rounded; a weight that no double can hold is
a fault. -/
def weighSixtieths (sum : Float) (weight : Nat) : List Float → Except Fault Float
  | [] => .ok sum
  | x :: rest =>
    match (Scalar.ofInt weight : Except ArithFault Float) with
    | .error _ => .error .tooLarge
    | .ok w => weighSixtieths (sum + x * w) (60 * weight) rest

/-! ## Integers -/

/-- The magnitude of an integer without its sign; `none` for a text that is no
integer. -/
def magnitude? (s : List Char) : Option (Except Fault Nat) :=
  match s with
  | ['0'] => some (.ok 0)
  | '0' :: 'b' :: d :: rest =>
    if (d :: rest).all (isDigitBelow 2) then some (inBase 2 (d :: rest)) else none
  | '0' :: 'x' :: d :: rest =>
    if (d :: rest).all isHexadecimal then some (inBase 16 (d :: rest)) else none
  | '0' :: rest => if rest.all (isDigitBelow 8) then some (inBase 8 ('0' :: rest)) else none
  | s =>
    if isWhole s then some (inTen (withoutUnderscores s))
    else if isSexagesimal s then some (ofSixtieths 0 (partsFrom [] s))
    else none

/-! ## Real numbers -/

/-- The exponent of a real number: a mark, a sign and digits, or nothing. -/
def exponent? : List Char → Option Int
  | [] => some 0
  | mark :: sign :: d :: rest =>
    if (mark = 'e' ∨ mark = 'E') ∧ (d :: rest).all Text.isAsciiDigit then
      let n : Int := Decimal.ofDigits (d :: rest)
      if sign = '-' then some (-n) else if sign = '+' then some n else none
    else none
  | _ => none

/-- The real number of some digits before and after a point. -/
def ofPlaces (whole places : List Char) (exponent : Int) : Float :=
  let places := withoutUnderscores places
  Decimal.toFloat
    ⟨Decimal.ofDigits (withoutUnderscores whole ++ places), exponent - places.length⟩

/-- The real number of parts in base sixty, the last of which has some places. -/
def ofSexagesimal (parts : List (List Char)) (places : List Char) : Except Fault Float :=
  match parts.reverse with
  | [] => .ok 0.0
  | last :: others =>
    weighSixtieths 0.0 1 (ofPlaces last places 0 :: others.map fun part => ofPlaces part [] 0)

/-- A real number without its sign; one that begins with its point has no sign. -/
def real? (signed : Bool) (s : List Char) : Option (Except Fault Float) :=
  let whole := s.takeWhile (· != '.')
  match s.dropWhile (· != '.') with
  | '.' :: rest =>
    let places := rest.takeWhile (isDigitBelow 10)
    let tail := rest.dropWhile (isDigitBelow 10)
    if isWhole whole then (exponent? tail).map fun e => .ok (ofPlaces whole places e)
    else if whole.isEmpty then
      if !signed && isWhole places then (exponent? tail).map fun e => .ok (ofPlaces [] places e)
      else none
    else if isSexagesimal whole && tail.isEmpty then
      some (ofSexagesimal (partsFrom [] whole) places)
    else none
  | _ => none

/-! ## All scalars -/

/-- The sign in front of a text: whether there is one, and whether it is a
minus. -/
def sign (s : List Char) : Bool × Bool × List Char :=
  match s with
  | '-' :: rest => (true, true, rest)
  | '+' :: rest => (true, false, rest)
  | s => (false, false, s)

/-- The number that a text stands for. -/
def number? (s : String) : Option (Except Fault Atom) :=
  let (signed, negative, body) := sign s.toList
  let signedReal (x : Float) : Atom := .real (if negative then -x else x)
  if infinityWords.contains (String.ofList body) then
    some (.ok (signedReal (Binary64.pack false 2047 0)))
  else
    match real? signed body with
    | some (.ok x) => some (.ok (signedReal x))
    | some (.error fault) => some (.error fault)
    | none =>
      (magnitude? body).map fun
        | .ok n => .ok (.int (if negative then -n else n))
        | .error fault => .error fault

/-- What a text stands for that is none of the words and no number. -/
def ofWords (s : String) : Except Fault Atom :=
  if dateExists? s.toList = some false then .error .outOfRange else .ok (.text s)

/-- What a plain text stands for. -/
def ofPlain (s : String) : Except Fault Atom :=
  if nullWords.contains s then .ok .null
  else if trueWords.contains s then .ok (.bool true)
  else if falseWords.contains s then .ok (.bool false)
  else if nanWords.contains s then .ok (.real Binary64.quietNaN)
  else if refusedWords.contains s then .error .malformed
  else (number? s).getD (ofWords s)

end Orchestrion.Document.Yaml

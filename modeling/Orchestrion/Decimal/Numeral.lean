import Orchestrion.Decimal.Basic
import Orchestrion.Text.Class

set_option autoImplicit false

/-!
# Numerals in a text

Integers and real numbers as people type them: blanks around them, a sign,
digits of any script, and single underscores between digits.  Real numbers may
have a point and an exponent, and the infinities and the number that is none are
spelled out.
-/

namespace Orchestrion.Decimal

/-- One of the blanks of ASCII: space, tab, and the line and page breaks. -/
def isAsciiBlank (c : Char) : Bool := c == ' ' || ('\t' ≤ c && c ≤ '\r')

/-- A character beyond ASCII as the ASCII character it stands for in a numeral:
blanks and digits of any script do, no other character does. -/
def asciiOf (c : Char) : Char :=
  if c.toNat < 0x80 then c
  else if Text.isBlank c then ' '
  else
    match Text.decimalValue? c with
    | some d => Char.ofNat ('0'.toNat + d)
    | none => '?'

/-- A text without the blanks around it, in ASCII. -/
def trimmed (s : String) : List Char :=
  let front := (s.toList.map asciiOf).dropWhile isAsciiBlank
  (front.reverse.dropWhile isAsciiBlank).reverse

/-- An optional sign, and whether it is a minus. -/
def signed : List Char → Bool × List Char
  | '-' :: rest => (true, rest)
  | '+' :: rest => (false, rest)
  | rest => (false, rest)

/-- The characters without their underscores, if each of those stands between
two digits.  The first argument says whether a digit stands in front. -/
def withoutUnderscores : Bool → List Char → Option (List Char)
  | _, [] => some []
  | afterDigit, '_' :: rest =>
    match afterDigit, rest with
    | true, d :: _ => if Text.isAsciiDigit d then withoutUnderscores false rest else none
    | _, _ => none
  | _, c :: rest => (withoutUnderscores (Text.isAsciiDigit c) rest).map (c :: ·)

/-! ## Integers -/

/-- The longest integer that is read from a text, in digits. -/
def maxIntegerDigits : Nat := 4300

/-- What a text says as an integer. -/
inductive IntegerReading where
  | value (n : Int)
  /-- an integer of too many digits -/
  | tooLong (digits : Nat)
  | malformed
  deriving DecidableEq, Repr

/-- The integer a text stands for.  The longest run of digits and underscores is
judged before what stands behind it: an underscore out of place makes the text
malformed, then too many digits make it too long, and only then does a rest
make it malformed. -/
def readInteger (s : String) : IntegerReading :=
  let (negative, body) := signed (trimmed s)
  let isPart := fun c => Text.isAsciiDigit c || c == '_'
  let run := body.takeWhile isPart
  match withoutUnderscores false run with
  | none => .malformed
  | some digits =>
    if maxIntegerDigits < digits.length then .tooLong digits.length
    else if digits.isEmpty || !(body.dropWhile isPart).isEmpty then .malformed
    else
      let n : Int := ofDigits digits
      .value (if negative then -n else n)

/-! ## Real numbers -/

/-- An exponent: a mark, an optional sign and digits; nothing at all is zero. -/
def readExponent : List Char → Option Int
  | [] => some 0
  | mark :: rest =>
    if mark = 'e' ∨ mark = 'E' then
      let (negative, digits) := signed rest
      if digits.isEmpty || !digits.all Text.isAsciiDigit then none
      else
        let n : Int := ofDigits digits
        some (if negative then -n else n)
    else none

/-- Digits, perhaps a point with digits around it, and perhaps an exponent. -/
def readUnsigned (s : List Char) : Option Decimal :=
  let whole := s.takeWhile Text.isAsciiDigit
  let rest := s.dropWhile Text.isAsciiDigit
  let (places, rest) :=
    match rest with
    | '.' :: rest => (rest.takeWhile Text.isAsciiDigit, rest.dropWhile Text.isAsciiDigit)
    | rest => ([], rest)
  if whole.isEmpty && places.isEmpty then none
  else (readExponent rest).map fun e => ⟨ofDigits (whole ++ places), e - places.length⟩

/-- The double nearest to the real number a text stands for. -/
def readReal (s : String) : Option Float :=
  match withoutUnderscores false (trimmed s) with
  | none => none
  | some chars =>
    let (negative, body) := signed chars
    let magnitude :=
      match String.ofList (body.map Char.toLower) with
      | "inf" | "infinity" => some (Binary64.pack false 2047 0)
      | "nan" => some Binary64.quietNaN
      | _ => (readUnsigned body).map Decimal.toFloat
    magnitude.map fun x => if negative then -x else x

end Orchestrion.Decimal

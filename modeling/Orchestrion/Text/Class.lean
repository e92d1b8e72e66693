import Orchestrion.Text.WordRanges
import Orchestrion.Text.DigitRanges

set_option autoImplicit false

/-!
# Classes of characters

Blanks, decimal digits, and the characters that words are made of.
-/

namespace Orchestrion.Text

/-- Whether a code point lies in one of some ranges. -/
def inRanges (ranges : List (Nat × Nat)) (n : Nat) : Bool :=
  ranges.any fun r => r.1 ≤ n && n ≤ r.2

/-- Blank characters: the ASCII blanks and separators, and every space and line
or paragraph separator beyond ASCII. -/
def isBlank (c : Char) : Bool :=
  let n := c.toNat
  (0x09 ≤ n && n ≤ 0x0d) || (0x1c ≤ n && n ≤ 0x20) || n == 0x85 || n == 0xa0 || n == 0x1680 ||
    (0x2000 ≤ n && n ≤ 0x200a) || n == 0x2028 || n == 0x2029 || n == 0x202f || n == 0x205f ||
    n == 0x3000

/-- One of the ten ASCII digits. -/
def isAsciiDigit (c : Char) : Bool := '0' ≤ c && c ≤ '9'

/-- The value of a decimal digit of any script. -/
def decimalValue? (c : Char) : Option Nat :=
  let n := c.toNat
  if n < 0x80 then
    if isAsciiDigit c then some (n - '0'.toNat) else none
  else (digitZeros.find? fun first => first ≤ n && n < first + 10).map (n - ·)

/-- A decimal digit of any script. -/
def isDecimalDigit (c : Char) : Bool := (decimalValue? c).isSome

/-- A letter, a number of any kind, or an underscore. -/
def isWordChar (c : Char) : Bool :=
  let n := c.toNat
  if n < 0x80 then isAsciiDigit c || ('a' ≤ c && c ≤ 'z') || ('A' ≤ c && c ≤ 'Z') || c == '_'
  else inRanges wordRanges n

/-- A character that may begin a word: a word character, but no decimal digit. -/
def startsWord (c : Char) : Bool := isWordChar c && !isDecimalDigit c

end Orchestrion.Text

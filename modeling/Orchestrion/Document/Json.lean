import Orchestrion.Document.Value
import Orchestrion.Decimal.Numeral

set_option autoImplicit false

/-!
# Documents in JSON

The text is cut into tokens, and the tokens are read with a stack of the lists
and mappings that are still open, one token at a time, so that a document may be
nested to any depth.

Numbers with a point or an exponent are real numbers, all others integers.  The
words `NaN`, `Infinity` and `-Infinity` are real numbers.  A key that is repeated
keeps its first place and its last value.

Deviations: nesting is not limited, and half a pair of surrogates that an escape writes
is read as a replacement character.
-/

namespace Orchestrion.Document.Json

/-- Why a text is no document. -/
inductive Fault where
  /-- the text is not written as a document is -/
  | malformed
  /-- an integer of too many digits -/
  | integerTooLong (digits : Nat)
  deriving DecidableEq, Repr

/-- A token of a document. -/
inductive Token where
  | openList
  | closeList
  | openMap
  | closeMap
  | comma
  | colon
  | text (s : String)
  /-- null, a truth value or a number -/
  | plain (a : Atom)
  /-- an integer of too many digits -/
  | longInteger (digits : Nat)
  /-- what no document holds -/
  | junk

/-! ## Strings -/

/-- The value of a hexadecimal digit. -/
def hexValue? (c : Char) : Option Nat :=
  if '0' ≤ c ∧ c ≤ '9' then some (c.toNat - '0'.toNat)
  else if 'a' ≤ c ∧ c ≤ 'f' then some (c.toNat - 'a'.toNat + 10)
  else if 'A' ≤ c ∧ c ≤ 'F' then some (c.toNat - 'A'.toNat + 10)
  else none

/-- Four hexadecimal digits as a number. -/
def hexFour? (a b c d : Char) : Option Nat := do
  let a ← hexValue? a
  let b ← hexValue? b
  let c ← hexValue? c
  let d ← hexValue? d
  return ((a * 16 + b) * 16 + c) * 16 + d

/-- The character that a one letter escape stands for. -/
def escaped? : Char → Option Char
  | '"' => some '"'
  | '\\' => some '\\'
  | '/' => some '/'
  | 'b' => some '\x08'
  | 'f' => some '\x0c'
  | 'n' => some '\n'
  | 'r' => some '\r'
  | 't' => some '\t'
  | _ => none

/-- A character of a string, and its escapes as the unit they stand for.  Units
of surrogate pairs are kept apart until the string has ended. -/
inductive Piece where
  | char (c : Char)
  | unit (n : Nat)

/-- The pieces of a string up to its closing quote, in reverse, and what follows
the quote.  `none` for a string that does not end or is badly written. -/
def stringPieces (pieces : List Piece) : List Char → Option (List Piece × List Char)
  | [] => none
  | '"' :: rest => some (pieces, rest)
  | '\\' :: 'u' :: a :: b :: c :: d :: rest =>
    match hexFour? a b c d with
    | some n => stringPieces (.unit n :: pieces) rest
    | none => none
  | '\\' :: c :: rest =>
    match escaped? c with
    | some c => stringPieces (.char c :: pieces) rest
    | none => none
  | c :: rest => if c.toNat < 0x20 then none else stringPieces (.char c :: pieces) rest

/-- The character of a unit that stands alone; half a pair is no character. -/
def loneUnit (n : Nat) : Char :=
  if 0xd800 ≤ n ∧ n < 0xe000 then '\ufffd' else Char.ofNat n

/-- The characters of a string from its pieces in reverse; two units that form a
pair are one character. -/
def joinPieces (chars : List Char) : List Piece → List Char
  | [] => chars
  | .char c :: rest => joinPieces (c :: chars) rest
  | .unit low :: .unit high :: rest =>
    if 0xdc00 ≤ low ∧ low < 0xe000 ∧ 0xd800 ≤ high ∧ high < 0xdc00 then
      let c := Char.ofNat (0x10000 + (high - 0xd800) * 0x400 + (low - 0xdc00))
      joinPieces (c :: chars) rest
    else joinPieces (loneUnit low :: chars) (.unit high :: rest)
  | .unit n :: rest => joinPieces (loneUnit n :: chars) rest

/-! ## Numbers -/

/-- Whether digits are an integer part: no zero in front of others. -/
def isWhole (digits : List Char) : Bool :=
  match digits with
  | [] => false
  | ['0'] => true
  | c :: _ => c != '0'

/-- The digits behind a point, what follows them, and whether there are any. -/
def placesOf (s : List Char) : List Char × List Char × Bool :=
  match s with
  | '.' :: d :: more =>
    if Text.isAsciiDigit d then
      ((d :: more).takeWhile Text.isAsciiDigit, (d :: more).dropWhile Text.isAsciiDigit, true)
    else ([], s, false)
  | _ => ([], s, false)

/-- The exponent that a text begins with, and what follows it. -/
def exponentOf (s : List Char) : Option Int × List Char :=
  match s with
  | mark :: more =>
    if mark = 'e' ∨ mark = 'E' then
      let (down, body) := Decimal.signed more
      let digits := body.takeWhile Text.isAsciiDigit
      if digits.isEmpty then (none, s)
      else
        let n : Int := Decimal.ofDigits digits
        (some (if down then -n else n), body.dropWhile Text.isAsciiDigit)
    else (none, s)
  | [] => (none, s)

/-- A number without its sign, and what follows it. -/
def unsignedNumber (negative : Bool) (s : List Char) : Token × List Char :=
  let whole := s.takeWhile Text.isAsciiDigit
  let rest := s.dropWhile Text.isAsciiDigit
  if !isWhole whole then (.junk, rest)
  else
    let (places, rest, hasPoint) := placesOf rest
    let (exponent, rest) := exponentOf rest
    if hasPoint || exponent.isSome then
      let x := Decimal.toFloat
        ⟨Decimal.ofDigits (whole ++ places), exponent.getD 0 - places.length⟩
      (.plain (.real (if negative then -x else x)), rest)
    else if Decimal.maxIntegerDigits < whole.length then (.longInteger whole.length, rest)
    else
      let n : Int := Decimal.ofDigits whole
      (.plain (.int (if negative then -n else n)), rest)

/-- What follows a given word, if a text begins with it. -/
def after? (word s : List Char) : Option (List Char) :=
  if word.isPrefixOf s then some (s.drop word.length) else none

/-- The words of a document and what they stand for. -/
def plainWords : List (List Char × Atom) :=
  [("null".toList, .null), ("true".toList, .bool true), ("false".toList, .bool false),
    ("NaN".toList, .real Binary64.quietNaN), ("Infinity".toList, .real (Binary64.pack false 2047 0)),
    ("-Infinity".toList, .real (Binary64.pack true 2047 0))]

/-- The first of some words that a text begins with, and what follows it. -/
def plainWord? (s : List Char) : List (List Char × Atom) → Option (Atom × List Char)
  | [] => none
  | (word, a) :: words =>
    match after? word s with
    | some rest => some (a, rest)
    | none => plainWord? s words

/-! ## Tokens -/

/-- Blank between tokens. -/
def isBlank (c : Char) : Bool := c == ' ' || c == '\t' || c == '\n' || c == '\r'

/-- The first token of a text that begins with no blank, and what follows it. -/
def token (c : Char) (cs : List Char) : Token × List Char :=
  match c with
  | '[' => (.openList, cs)
  | ']' => (.closeList, cs)
  | '\x7b' => (.openMap, cs)
  | '\x7d' => (.closeMap, cs)
  | ',' => (.comma, cs)
  | ':' => (.colon, cs)
  | '"' =>
    match stringPieces [] cs with
    | some (pieces, rest) => (.text (String.ofList (joinPieces [] pieces)), rest)
    | none => (.junk, [])
  | c =>
    match plainWord? (c :: cs) plainWords with
    | some (a, rest) => (.plain a, rest)
    | none =>
      if c = '-' then unsignedNumber true cs
      else if Text.isAsciiDigit c then unsignedNumber false (c :: cs)
      else (.junk, [])

/-- The tokens of a text, at most `fuel` of them, in reverse; what is no token
ends them. -/
def tokensFrom (found : List Token) : Nat → List Char → List Token
  | 0, _ => found
  | _, [] => found
  | fuel + 1, c :: cs =>
    if isBlank c then tokensFrom found fuel cs
    else
      match token c cs with
      | (.junk, _) => .junk :: found
      | (t, rest) => tokensFrom (t :: found) fuel rest

/-- The tokens of a text. -/
def tokens (s : List Char) : List Token := (tokensFrom [] s.length s).reverse

/-! ## Reading -/

/-- A list or a mapping that is still open. -/
inductive Frame where
  /-- its items, the last one first -/
  | list (items : List Value)
  /-- its entries, and the key whose value is awaited -/
  | map (entries : List (Atom × Value)) (key : Atom)

/-- What the next token finds. -/
inductive State where
  /-- a value has to come -/
  | value (stack : List Frame)
  /-- a list has just been opened -/
  | firstItem (stack : List Frame)
  /-- a mapping has just been opened -/
  | firstKey (stack : List Frame)
  /-- a key has to come, after some entries -/
  | key (entries : List (Atom × Value)) (stack : List Frame)
  /-- a colon has to come -/
  | colon (entries : List (Atom × Value)) (key : Atom) (stack : List Frame)
  /-- a value has just ended -/
  | ended (v : Value) (stack : List Frame)

/-- A token where a value has to come. -/
def startValue (stack : List Frame) : Token → Except Fault State
  | .openList => .ok (.firstItem stack)
  | .openMap => .ok (.firstKey stack)
  | .text s => .ok (.ended (.ofText s) stack)
  | .plain a => .ok (.ended (.atom a) stack)
  | .longInteger digits => .error (.integerTooLong digits)
  | _ => .error .malformed

/-- A token after a value. -/
def endValue (v : Value) (stack : List Frame) (t : Token) : Except Fault State :=
  match stack, t with
  | .list items :: stack, .comma => .ok (.value (.list (v :: items) :: stack))
  | .list items :: stack, .closeList => .ok (.ended (.list (v :: items).reverse) stack)
  | .map entries key :: stack, .comma => .ok (.key (put entries key v) stack)
  | .map entries key :: stack, .closeMap => .ok (.ended (.map (put entries key v)) stack)
  | _, _ => .error .malformed

/-- One token. -/
def step (state : State) (t : Token) : Except Fault State :=
  match state, t with
  | .value stack, t => startValue stack t
  | .firstItem stack, .closeList => .ok (.ended (.list []) stack)
  | .firstItem stack, t => startValue (.list [] :: stack) t
  | .firstKey stack, .closeMap => .ok (.ended (.map []) stack)
  | .firstKey stack, .text s => .ok (.colon [] (.text s) stack)
  | .key entries stack, .text s => .ok (.colon entries (.text s) stack)
  | .colon entries key stack, .colon => .ok (.value (.map entries key :: stack))
  | .ended v stack, t => endValue v stack t
  | _, _ => .error .malformed

/-- Reads tokens from a state on. -/
def run : State → List Token → Except Fault Value
  | .ended v [], [] => .ok v
  | _, [] => .error .malformed
  | state, t :: ts =>
    match step state t with
    | .ok state => run state ts
    | .error fault => .error fault

/-- The value that a text holds. -/
def read (s : String) : Except Fault Value := run (.value []) (tokens s.toList)

end Orchestrion.Document.Json

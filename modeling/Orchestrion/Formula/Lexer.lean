import Orchestrion.Formula.Expr
import Orchestrion.Text.Class

set_option autoImplicit false

/-!
# The words of a formula

A formula is cut into segments that follow each other without gaps: comments,
runs of blanks, and tokens.  A comment, a run of blanks, a run of digits and
dots, and a word reach as far as they can.  The tokens are what the reader of
formulas sees.
-/

namespace Orchestrion.Formula

/-- A token of a formula. -/
inductive Token where
  | word (ident : String)
  /-- a numeral, as written and in value -/
  | number (written : String) (value : Decimal)
  | operator (op : BinaryOp)
  | openBracket
  | closeBracket
  /-- a character or a run of digits and dots that no formula holds -/
  | unknown (written : String)
  deriving DecidableEq, Repr, Inhabited

namespace Token

/-- A token as it is written. -/
def text : Token → String
  | .word ident => ident
  | .number written _ => written
  | .operator op => op.sign
  | .openBracket => "("
  | .closeBracket => ")"
  | .unknown written => written

/-- How tightly a token binds the operand before it; zero when it does not.  An
opening bracket binds, and has no meaning there. -/
def power : Token → Nat
  | .operator .add | .operator .sub => 50
  | .operator .mul | .operator .div | .operator .mod => 60
  | .openBracket => 80
  | _ => 0

end Token

/-- How tightly an operator in front of its operand binds it. -/
def unaryPower : Nat := 100

/-- A piece of a formula's text. -/
inductive Segment where
  /-- from a hash sign up to the end of the line -/
  | comment (written : List Char)
  /-- a run of blanks -/
  | blank (written : List Char)
  | token (t : Token)
  deriving DecidableEq, Repr

namespace Segment

/-- A segment as it is written. -/
def text : Segment → List Char
  | .comment written => written
  | .blank written => written
  | .token t => t.text.toList

/-- The token of a segment, if it is one. -/
def token? : Segment → Option Token
  | .token t => some t
  | _ => none

end Segment

/-! ## Single segments -/

/-- The token that one character is, outside of words and numerals. -/
def symbol (c : Char) : Token :=
  match c with
  | '+' => .operator .add
  | '-' => .operator .sub
  | '*' => .operator .mul
  | '/' => .operator .div
  | '%' => .operator .mod
  | '(' => .openBracket
  | ')' => .closeBracket
  | c => .unknown (String.singleton c)

/-- A character of a numeral after its first digit. -/
def continuesNumber (c : Char) : Bool := Text.isAsciiDigit c || c == '.'

/-- The token of a run of digits and dots: a numeral, unless it holds a second
dot. -/
def numeral (run : List Char) : Token :=
  let digits := run.filter Text.isAsciiDigit
  let places := (run.dropWhile (· ≠ '.')).drop 1
  if run.count '.' ≤ 1 then
    .number (String.ofList run) ⟨Decimal.ofDigits digits, -(places.length : Int)⟩
  else .unknown (String.ofList run)

/-- The rest of a line. -/
def inComment (c : Char) : Bool := c != '\n'

/-! ## Scanning -/

/-- The segments of a text. -/
def segments : List Char → List Segment
  | [] => []
  | c :: cs =>
    if c = '#' then
      .comment (c :: cs.takeWhile inComment) :: segments (cs.dropWhile inComment)
    else if Text.isBlank c then
      .blank (c :: cs.takeWhile Text.isBlank) :: segments (cs.dropWhile Text.isBlank)
    else if Text.isAsciiDigit c then
      .token (numeral (c :: cs.takeWhile continuesNumber)) ::
        segments (cs.dropWhile continuesNumber)
    else if Text.startsWord c then
      .token (.word (String.ofList (c :: cs.takeWhile Text.isWordChar))) ::
        segments (cs.dropWhile Text.isWordChar)
    else .token (symbol c) :: segments cs
termination_by cs => cs.length
decreasing_by
  all_goals simp only [List.length_cons]
  all_goals first
    | exact Nat.lt_succ_of_le (List.dropWhile_suffix _).length_le
    | exact Nat.lt_succ_self _

/-- The tokens of a text. -/
def tokenize (s : String) : List Token := (segments s.toList).filterMap Segment.token?

end Orchestrion.Formula

import Orchestrion.Formula.Fault
import Orchestrion.Formula.Lexer

set_option autoImplicit false

/-!
# Reading formulas

Formulas are read by operator precedence.  What has been read and not yet closed
is a stack of frames, the innermost first; each frame says how tightly an
operator must bind to take the operand before it away from the frame.  One token
takes one step, so a formula of any depth is read in one pass over its tokens.

A frame stands for an expression within another that is being read by a call.  Here
calls may be nested as deep as the tokens ask for; `Orchestrion.Formula.Room` has the
reader that runs out of room for them.

* `expression limit` reads one operand and every operator that binds tighter
  than `limit`, and gives the tree and the tokens it has left.
* `parse` reads a whole text.
-/

namespace Orchestrion.Formula

/-! ## Frames -/

/-- Something that waits for the operand at its right. -/
inductive Frame where
  /-- a plus sign in front of its operand -/
  | plus
  /-- an operator in front of its operand -/
  | unary (op : UnaryOp)
  /-- an operator with its left operand -/
  | binary (lhs : Expr) (op : BinaryOp)
  /-- an open bracket -/
  | group
  deriving DecidableEq, Repr

/-- How tightly an operator must bind to be taken before the frame is closed. -/
def Frame.power : Frame → Nat
  | .plus | .unary _ => unaryPower
  | .binary _ op => (Token.operator op).power
  | .group => 0

/-- What the next token finds. -/
inductive State where
  /-- an operand has to come -/
  | before (stack : List Frame)
  /-- an operand has just ended -/
  | after (operand : Expr) (stack : List Frame)
  deriving DecidableEq, Repr

/-- What a token leads to. -/
inductive Outcome where
  | next (state : State)
  /-- the expression has ended in front of the token -/
  | done (e : Expr)
  | fail (fault : Fault)
  deriving DecidableEq, Repr

/-! ## Steps -/

/-- The operator that a word in front of an operand is. -/
def function? : String → Option UnaryOp
  | "abs" => some .abs
  | "sgn" => some .sgn
  | "sin" => some .sin
  | "cos" => some .cos
  | _ => none

/-- A token where an operand has to come. -/
def startOperand (stack : List Frame) : Token → Outcome
  | .word ident =>
    match function? ident with
    | some op => .next (.before (.unary op :: stack))
    | none => .next (.after (.name ident) stack)
  | .number _ value => .next (.after (.number value) stack)
  | .operator .add => .next (.before (.plus :: stack))
  | .operator .sub => .next (.before (.unary .negate :: stack))
  | .openBracket => .next (.before (.group :: stack))
  | _ => .fail .unexpected

/-- A token that binds the operand before it more tightly than the innermost
frame does. -/
def takeOperand (operand : Expr) (stack : List Frame) : Token → Outcome
  | .operator op => .next (.before (.binary operand op :: stack))
  | _ => .fail .incomplete

/-- A token where an operand has ended: every frame that binds at least as
tightly is closed first.  A plus sign changes nothing. -/
def endOperand (limit : Nat) (t : Token) : Expr → List Frame → Outcome
  | operand, [] =>
    if limit < t.power then takeOperand operand [] t else .done operand
  | operand, frame :: stack =>
    if frame.power < t.power then takeOperand operand (frame :: stack) t
    else
      match frame with
      | .plus => endOperand limit t operand stack
      | .unary op => endOperand limit t (.unary op operand) stack
      | .binary lhs op => endOperand limit t (.binary op lhs operand) stack
      | .group =>
        match t with
        | .closeBracket => .next (.after operand stack)
        | _ => .fail .unexpected

/-- One token. -/
def step (limit : Nat) : State → Token → Outcome
  | .before stack, t => startOperand stack t
  | .after operand stack, t => endOperand limit t operand stack

/-- The tree when the tokens end after an operand: every frame but a bracket is
closed. -/
def close : Expr → List Frame → Except Fault Expr
  | operand, [] => .ok operand
  | operand, .plus :: stack => close operand stack
  | operand, .unary op :: stack => close (.unary op operand) stack
  | operand, .binary lhs op :: stack => close (.binary op lhs operand) stack
  | _, .group :: _ => .error .incomplete

/-- Reads from a state on, up to the end of the expression. -/
def run (limit : Nat) : State → List Token → Except Fault (Expr × List Token)
  | .before _, [] => .error .incomplete
  | .after operand stack, [] =>
    match close operand stack with
    | .error fault => .error fault
    | .ok e => .ok (e, [])
  | state, t :: ts =>
    match step limit state t with
    | .next state => run limit state ts
    | .done e => .ok (e, t :: ts)
    | .fail fault => .error fault

/-! ## Whole formulas -/

/-- One operand and the operators after it that bind tighter than `limit`. -/
def expression (limit : Nat) (ts : List Token) : Except Fault (Expr × List Token) :=
  run limit (.before []) ts

/-- The tree of a list of tokens; no token may be left. -/
def parseTokens (ts : List Token) : Except Fault Expr :=
  match expression 0 ts with
  | .error fault => .error fault
  | .ok (e, []) => .ok e
  | .ok (_, _ :: _) => .error .unexpected

/-- The tree of a text. -/
def parse (s : String) : Except Fault Expr := parseTokens (tokenize s)

end Orchestrion.Formula

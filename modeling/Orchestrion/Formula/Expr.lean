import Orchestrion.Decimal.Notation

set_option autoImplicit false

/-!
# Formula trees

The tree of a formula, and its text in fully bracketed prefix notation, from
which the tree can be told without any rule of precedence.
-/

namespace Orchestrion.Formula

/-- The operators of one operand. -/
inductive UnaryOp where
  | negate
  | abs
  | sgn
  | sin
  | cos
  deriving DecidableEq, Repr, Inhabited

/-- The operators of two operands. -/
inductive BinaryOp where
  | add
  | sub
  | mul
  | div
  | mod
  deriving DecidableEq, Repr, Inhabited

/-- A formula. -/
inductive Expr where
  /-- a numeral -/
  | number (value : Decimal)
  /-- a named value of the context -/
  | name (ident : String)
  | unary (op : UnaryOp) (operand : Expr)
  | binary (op : BinaryOp) (lhs rhs : Expr)
  deriving DecidableEq, Repr, Inhabited

/-- The word for an operator of one operand. -/
def UnaryOp.word : UnaryOp → String
  | .negate => "negate"
  | .abs => "abs"
  | .sgn => "sgn"
  | .sin => "sin"
  | .cos => "cos"

/-- The sign for an operator of two operands. -/
def BinaryOp.sign : BinaryOp → String
  | .add => "+"
  | .sub => "-"
  | .mul => "*"
  | .div => "/"
  | .mod => "%"

namespace Expr

/-- The words of a tree in prefix notation, in front of others: a number as the
bits of its double after `#`, a name after `$`, operators in brackets. -/
def words : Expr → List String → List String
  | .number value, rest => ("#" ++ Decimal.bitsText value.toFloat) :: rest
  | .name ident, rest => ("$" ++ ident) :: rest
  | .unary op operand, rest => ("(" ++ op.word) :: operand.words (")" :: rest)
  | .binary op lhs rhs, rest => ("(" ++ op.sign) :: lhs.words (rhs.words (")" :: rest))

/-- A tree in prefix notation. -/
def render (e : Expr) : String := " ".intercalate (e.words [])

/-- Whether a name occurs in a formula. -/
def mentions (x : String) : Expr → Bool
  | .number _ => false
  | .name ident => ident == x
  | .unary _ operand => operand.mentions x
  | .binary _ lhs rhs => lhs.mentions x || rhs.mentions x

/-- Whether the sine or the cosine occurs in a formula. -/
def isTrigonometric : Expr → Bool
  | .number _ => false
  | .name _ => false
  | .unary op operand => op == .sin || op == .cos || operand.isTrigonometric
  | .binary _ lhs rhs => lhs.isTrigonometric || rhs.isTrigonometric

end Expr

end Orchestrion.Formula

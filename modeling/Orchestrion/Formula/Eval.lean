import Orchestrion.Formula.Fault
import Orchestrion.Formula.Expr
import Orchestrion.Context

set_option autoImplicit false

/-!
# The value of a formula

Operands are valued from left to right, and the first node that has no value
ends the evaluation.  The sine and the cosine count their operand in half turns.
-/

namespace Orchestrion.Formula

variable {α : Type} [Scalar α]

/-- An operation of the arithmetic within a formula; whatever it refuses is
unexpected there. -/
def orUnexpected : Except ArithFault α → Except Fault α
  | .ok x => .ok x
  | .error _ => .error .unexpected

/-- The value of an operator of one operand. -/
def UnaryOp.apply (op : UnaryOp) (x : α) : Except Fault α :=
  match op with
  | .negate => .ok (-x)
  | .abs => .ok (Scalar.abs x)
  | .sgn => .ok (Scalar.sign x)
  | .sin => orUnexpected (Scalar.sin (x * Scalar.pi))
  | .cos => orUnexpected (Scalar.cos (x * Scalar.pi))

/-- The value of an operator of two operands. -/
def BinaryOp.apply (op : BinaryOp) (a b : α) : Except Fault α :=
  match op with
  | .add => .ok (a + b)
  | .sub => .ok (a - b)
  | .mul => .ok (a * b)
  | .div =>
    if Scalar.eq b 0.0 then .error .unexpected else orUnexpected (Scalar.quotient a b)
  | .mod =>
    if Scalar.eq b 0.0 then .error .unexpected else orUnexpected (Scalar.remainder a b)

/-- The value of a formula in a context. -/
def Expr.eval (ctx : Context α) : Expr → Except Fault α
  | .number value => .ok value.toScalar
  | .name ident =>
    match ctx.get? ident with
    | some x => .ok x
    | none => .error .incomplete
  | .unary op operand =>
    match operand.eval ctx with
    | .ok x => op.apply x
    | .error fault => .error fault
  | .binary op lhs rhs =>
    match lhs.eval ctx with
    | .ok a =>
      match rhs.eval ctx with
      | .ok b => op.apply a b
      | .error fault => .error fault
    | .error fault => .error fault

end Orchestrion.Formula

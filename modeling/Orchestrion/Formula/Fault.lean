set_option autoImplicit false

/-!
# Faults of formulas

A formula that cannot be read, and a formula that has no value, fail for one of
two reasons.  A fault carries no position.
-/

namespace Orchestrion.Formula

/-- Why a formula cannot be read or has no value. -/
inductive Fault where
  /-- something that cannot stand, or cannot be computed, where it is -/
  | unexpected
  /-- something is missing -/
  | incomplete
  deriving DecidableEq, Repr, Inhabited

/-- What is said about a fault. -/
def Fault.message : Fault → String
  | .unexpected => "unexpected token"
  | .incomplete => "incomplete expression"

end Orchestrion.Formula

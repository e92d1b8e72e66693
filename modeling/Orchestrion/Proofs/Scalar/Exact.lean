import Orchestrion.Proofs.Scalar.Faithful
import Mathlib.Analysis.SpecialFunctions.Pow.Real
import Mathlib.Analysis.SpecialFunctions.Trigonometric.Basic

set_option autoImplicit false

/-!
# Arithmetic without rounding

In an ordered field the operations of a signal are those of the field, and nothing is
rounded; the functions that lead out of the rational numbers are taken as given.  The
real numbers have all of them.
-/

namespace Orchestrion

namespace Scalar

/-- What the operations of an ordered field do not give by themselves. -/
structure Elementary (K : Type) where
  pi : K
  exp2 : K → K
  root : K → K
  sin : K → K
  cos : K → K
  /-- the greatest integer that is not above a number -/
  floor : K → ℤ

namespace Elementary

variable {K : Type} [Field K] [LinearOrder K] (e : Elementary K)

/-- The integer next to a number in the direction of zero. -/
def truncate (x : K) : ℤ := if 0 ≤ x then e.floor x else -e.floor (-x)

/-- The nearest integer, halves to the even neighbour. -/
def nearest (x : K) : ℤ :=
  let low := e.floor x
  let rest := x - low
  if rest + rest < 1 then low
  else if 1 < rest + rest then low + 1
  else if low % 2 = 0 then low else low + 1

end Elementary

/-- The arithmetic of an ordered field. -/
abbrev exact {K : Type} [Field K] [LinearOrder K] (e : Elementary K) : Scalar K where
  toOfScientific := NNRatCast.toOfScientific
  lt a b := decide (a < b)
  le a b := decide (a ≤ b)
  eq a b := decide (a = b)
  abs x := Max.max x (-x)
  sign x := if x < 0 then -1 else 1
  pi := e.pi
  power x n := .ok (x ^ n)
  exp2 x := .ok (e.exp2 x)
  sqrt x := if x < 0 then .error .domain else .ok (e.root x)
  sin x := .ok (e.sin x)
  cos x := .ok (e.cos x)
  remainder a b := if b = 0 then .error .domain else .ok (a - e.truncate (a / b) * b)
  ofInt n := .ok n
  truncate x := .ok (e.truncate x)
  floor x := .ok (e.floor x)
  nearest x := .ok (e.nearest x)
  single x := x

end Scalar

/-! ## Ordered fields -/

namespace Scalar

/-- A field that has what its operations do not give, whatever it may be. -/
class HasElementary (K : Type) where
  elementary : Elementary K

variable {K : Type} [Field K] [LinearOrder K] [HasElementary K]

/-- The arithmetic of an ordered field with these functions. -/
abbrev given : Scalar K := exact HasElementary.elementary

attribute [local instance] given

-- what is written with signs is meant in the field
attribute [local instance (low)] toAdd toSub toMul toDiv toNeg toOfScientific

variable [IsStrictOrderedRing K]

omit [HasElementary K] in
theorem decimal_one : (1.0 : K) = 1 := by norm_num

theorem quotient_of_ne {a b : K} (hb : b ≠ 0) : quotient a b = .ok (a / b) := by
  have hzero : (0.0 : K) = 0 := by norm_num
  rw [quotient, hzero]
  exact if_neg (mt of_decide_eq_true hb)

end Scalar

/-! ## Real numbers -/

namespace Scalar

/-- The real numbers with their own functions. -/
noncomputable abbrev HasElementary.real : HasElementary ℝ :=
  ⟨⟨Real.pi, fun x => ((2 : ℕ) : ℝ) ^ x, Real.sqrt, Real.sin, Real.cos, Int.floor⟩⟩

/-- The arithmetic of the real numbers. -/
noncomputable abbrev real : Scalar ℝ :=
  exact ⟨Real.pi, fun x => ((2 : ℕ) : ℝ) ^ x, Real.sqrt, Real.sin, Real.cos, Int.floor⟩

attribute [local instance] real

theorem truncate_real (a : ℝ) : Scalar.truncate a = .ok (towardZero a) := by
  show Except.ok (if 0 ≤ a then ⌊a⌋ else -⌊-a⌋) = _
  rw [Int.floor_neg, neg_neg]
  rfl

theorem eq_of_some_coe {x a : ℝ} (h : some (x : EReal) = some ↑a) : x = a := by
  exact_mod_cast Option.some.inj h

/-- What is not rounded is rounded faithfully. -/
noncomputable abbrev Faithful.real : Faithful ℝ where
  value a := some ↑a
  lt_iff x y := by simp [Scalar.lt]
  le_iff x y := by simp [Scalar.le]
  eq_iff x y := by simp [Scalar.eq, eq_comm]
  value_zero := by norm_num
  value_one := by norm_num
  value_maxSample := by norm_num
  value_singleMax := by norm_num [Scalar.singleMax, Scalar.singleLimit]
  value_neg x := rfl
  value_abs x := congrArg some EReal.coe_strictMono.monotone.map_max
  value_add x y a b hx hy := ⟨_, rfl⟩
  value_single x a hx := ⟨_, rfl⟩
  value_mul x y a b hx hy := by
    rw [← eq_of_some_coe hx, ← eq_of_some_coe hy]
    exact ⟨_, rfl, fun z d hd => ⟨id, id⟩⟩
  value_div x y a b hx hy hb := by
    rw [← eq_of_some_coe hx, ← eq_of_some_coe hy]
    exact ⟨_, rfl, fun z d hd => ⟨id, id⟩⟩
  truncate_eq x a hx := by
    rw [← eq_of_some_coe hx]
    exact truncate_real x

end Scalar

end Orchestrion

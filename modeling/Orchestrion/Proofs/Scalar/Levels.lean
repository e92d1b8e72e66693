import Orchestrion.Proofs.Scalar.Rounded

set_option autoImplicit false

/-!
# Levels

A level is a number by a peak, at some scale.  Whatever is rounded on the way keeps its
order and does not depend on its sign.  An infinity stays one by a finite peak, an infinite
peak leaves nothing but zero, and what is no number never becomes one.
-/

namespace Orchestrion

namespace Scalar

/-! ## Rounding on the extended real line -/

/-- A rounding of the real numbers that leaves the infinities as they are. -/
noncomputable def extended (f : ℝ → EReal) (a : EReal) : EReal :=
  if a = ⊥ ∨ a = ⊤ then a else f a.toReal

section

variable {f : ℝ → EReal}

@[simp] theorem extended_coe (f : ℝ → EReal) (r : ℝ) : extended f ↑r = f r := by
  rw [extended, if_neg (not_or.mpr ⟨EReal.coe_ne_bot r, EReal.coe_ne_top r⟩), EReal.toReal_coe]

@[simp] theorem extended_top (f : ℝ → EReal) : extended f ⊤ = ⊤ := if_pos (.inr rfl)

@[simp] theorem extended_bot (f : ℝ → EReal) : extended f ⊥ = ⊥ := if_pos (.inl rfl)

theorem extended_mono (h : Monotone f) : Monotone (extended f) := by
  intro a b hab
  induction a with
  | bot => exact (extended_bot f).trans_le bot_le
  | top => rw [top_le_iff.mp hab]
  | coe r =>
    induction b with
    | bot => exact absurd hab (not_le.mpr (EReal.bot_lt_coe r))
    | top => exact le_top.trans_eq (extended_top f).symm
    | coe r' =>
      rw [extended_coe, extended_coe]
      exact h (EReal.coe_le_coe_iff.mp hab)

theorem extended_neg (h : ∀ r, f (-r) = -f r) (a : EReal) : extended f (-a) = -extended f a := by
  induction a with
  | bot => rw [EReal.neg_bot, extended_top, extended_bot, EReal.neg_bot]
  | top => rw [EReal.neg_top, extended_top, extended_bot, EReal.neg_top]
  | coe r => rw [← EReal.coe_neg, extended_coe, extended_coe, h]

end

/-! ## The laws -/

/-- Arithmetic in which levels are told. -/
class Levels (α : Type) [Scalar α] [Faithful α] extends Rounded α where
  round_neg (r : ℝ) : round (-r) = -round r
  value_div_of_pos (x y : α) (a : EReal) (b : ℝ) (hx : Faithful.value x = some a)
    (hy : Faithful.value y = some ↑b) (hb : 0 < b) :
    Faithful.value (x / y) = some (extended round (a / b))
  value_div_top (x y : α) (hy : Faithful.value y = some ⊤) :
    Faithful.value (x / y) = none ∨ Faithful.value (x / y) = some 0
  value_none_div (x y : α) (hx : Faithful.value x = none) : Faithful.value (x / y) = none
  value_mul_of_pos (x y : α) (a : EReal) (b : ℝ) (hx : Faithful.value x = some a)
    (hy : Faithful.value y = some ↑b) (hb : 0 < b) :
    Faithful.value (x * y) = some (extended round (a * b))
  value_none_mul (x y : α) (hx : Faithful.value x = none) : Faithful.value (x * y) = none

/-! ## Real numbers -/

attribute [local instance] real Faithful.real

/-- Levels of real numbers are exact. -/
noncomputable abbrev Levels.real : Levels ℝ where
  toRounded := Rounded.real
  round_neg := EReal.coe_neg
  value_div_of_pos x y a b hx hy hb := by
    cases hx
    rw [← eq_of_some_coe hy, ← EReal.coe_div, extended_coe]
    rfl
  value_div_top x y hy := absurd (Option.some.inj hy) (EReal.coe_ne_top y)
  value_none_div x y := nofun
  value_mul_of_pos x y a b hx hy hb := by
    cases hx
    rw [← eq_of_some_coe hy, ← EReal.coe_mul, extended_coe]
    rfl
  value_none_mul x y := nofun

end Scalar

end Orchestrion

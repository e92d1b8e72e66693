import Orchestrion.Proofs.Binary64.Special
import Orchestrion.Proofs.Binary64.Nearest
import Orchestrion.Proofs.Scalar.Levels

set_option autoImplicit false

/-!
# Quotients of doubles, and infinities

The quotient of two finite doubles is the double next to the exact one: what is left of the
division says on which side of the half between two doubles it lies.  An infinity by a
positive number stays an infinity, a number by an infinity is zero, and where both are
infinite there is no quotient.
-/

namespace Orchestrion.Binary64

open Float.Model (UnpackedFloat Format)
open Float.Model.UnpackedFloat

/-! ## Rounding to the nearest -/

/-- What is left of a division is compared with the half of the divisor. -/
theorem tells_div (n : Nat) {d : Nat} (hd : 0 < d) :
    Tells (.ofMantissaAndAccuracy (n / d) (accuracyOfFraction (n % d) d)) (n / d) := by
  have hpos : (0 : ℝ) < d := by exact_mod_cast hd
  have hfloor : ⌊(n : ℝ) / d⌋ = ((n / d : Nat) : ℤ) := by
    rw [← Int.cast_natCast n, Int.floor_div_natCast, Int.floor_intCast, Int.natCast_ediv]
  have hfract : 2 * Int.fract ((n : ℝ) / d) = ((2 * (n % d) : Nat) : ℝ) / d := by
    rw [Int.fract_div_natCast_eq_div_natCast_mod]
    push_cast
    ring
  have hone : 2 * Int.fract ((n : ℝ) / d) = 1 ↔ 2 * (n % d) = d := by
    rw [hfract, div_eq_one_iff_eq hpos.ne', Nat.cast_inj]
  have hzero : 2 * Int.fract ((n : ℝ) / d) = 0 ↔ n % d = 0 := by
    rw [hfract, div_eq_zero_iff, or_iff_left hpos.ne', Nat.cast_eq_zero]
    omega
  have hhalf : 1 ≤ 2 * Int.fract ((n : ℝ) / d) ↔ d ≤ 2 * (n % d) := by
    rw [hfract, one_le_div hpos, Nat.cast_le]
  rw [accuracyOfFraction]
  split_ifs with hexact
  · have hless : ¬d ≤ 2 * (n % d) := by omega
    exact ⟨hfloor, iff_of_false nofun (mt hhalf.mp hless),
      iff_of_false nofun fun hrest => hrest.1 (hzero.mpr hexact)⟩
  · rcases lt_trichotomy (2 * (n % d)) d with hlt | heq | hgt
    · rw [compare_lt_iff_lt.mpr hlt]
      exact ⟨hfloor, iff_of_false nofun (mt hhalf.mp (not_le.mpr hlt)),
        iff_of_true rfl ⟨mt hzero.mp hexact, mt hone.mp hlt.ne⟩⟩
    · rw [compare_eq_iff_eq.mpr heq]
      exact ⟨hfloor, iff_of_true rfl (hhalf.mpr heq.ge),
        iff_of_false nofun fun hrest => hrest.2 (hone.mpr heq)⟩
    · rw [compare_gt_iff_gt.mpr hgt]
      exact ⟨hfloor, iff_of_true rfl (hhalf.mpr hgt.le),
        iff_of_true rfl ⟨mt hzero.mp hexact, mt hone.mp hgt.ne'⟩⟩

theorem valueOf_div {u v : UnpackedFloat} {a b : ℝ} (ha : valueOf u = some ↑a)
    (hb : valueOf v = some ↑b) (hne : b ≠ 0) :
    valueOf (repacked (u.div Format.binary64 v)) = some (nearest (a / b)) := by
  rcases cases_of_valueOf_coe hb with ⟨s', rfl, rfl⟩ | ⟨s', m', e', hm', rfl, rfl⟩
  · exact absurd rfl hne
  · rcases cases_of_valueOf_coe ha with ⟨s, rfl, rfl⟩ | ⟨s, m, e, hm, rfl, rfl⟩
    · rw [zero_div, nearest_zero]
      exact congrArg valueOf (repacked_zero _)
    · obtain ⟨n, t, hcore, hdigits, hquotient⟩ := exists_divCore e e' hm hm'
      rw [← signedReal_div, nearest_signedReal _ (by positivity), hquotient, UnpackedFloat.div,
        hcore]
      exact valueOf_round (s / s') (tells_div n hm') hdigits

/-! ## Infinities -/

/-- Only an infinity has an infinite value. -/
theorem eq_infinity_of_valueOf {u : UnpackedFloat} {s : Sign}
    (h : valueOf u = some (withSign s ⊤)) : u = .infinity s := by
  have hfinite (r : ℝ) : (r : EReal) ≠ withSign s ⊤ := by
    cases s with
    | positive => exact EReal.coe_ne_top r
    | negative => exact EReal.coe_ne_bot r
  cases u with
  | notANumber => cases h
  | zero s' => exact absurd (Option.some.inj h) (hfinite 0)
  | finite s' m e hm =>
    obtain ⟨r, hr⟩ := withSign_coe s' (m * 2 ^ e)
    exact absurd (hr.symm.trans (Option.some.inj h)) (hfinite r)
  | infinity s' =>
    have hbound : withSign s' ⊤ = withSign s ⊤ := Option.some.inj h
    cases s <;> cases s'
    case negative.negative | positive.positive => rfl
    case negative.positive => exact absurd hbound top_ne_bot
    case positive.negative => exact absurd hbound bot_ne_top

theorem exists_of_valueOf_pos {v : UnpackedFloat} {b : ℝ} (hb : valueOf v = some ↑b)
    (hpos : 0 < b) : ∃ m e hm, v = .finite .positive m e hm := by
  rcases cases_of_valueOf_coe hb with ⟨s, -, rfl⟩ | ⟨s, m, e, hm, rfl, rfl⟩
  · exact absurd hpos (lt_irrefl _)
  · have hmagnitude : (0 : ℝ) < m * 2 ^ e := by positivity
    cases s with
    | positive => exact ⟨m, e, hm, rfl⟩
    | negative => exact absurd hpos (not_lt.mpr (neg_nonpos.mpr hmagnitude.le))

/-- An infinity by a positive number is the same infinity. -/
theorem valueOf_infinity_div (s : Sign) {v : UnpackedFloat} {b : ℝ} (hb : valueOf v = some ↑b)
    (hpos : 0 < b) :
    valueOf (repacked ((infinity s).div Format.binary64 v)) = some (withSign s ⊤) := by
  obtain ⟨m, e, hm, rfl⟩ := exists_of_valueOf_pos hb hpos
  cases s <;> exact congrArg valueOf (repacked_infinity _)

theorem valueOf_infinity_mul (s : Sign) {v : UnpackedFloat} {b : ℝ} (hb : valueOf v = some ↑b)
    (hpos : 0 < b) :
    valueOf (repacked ((infinity s).mul Format.binary64 v)) = some (withSign s ⊤) := by
  obtain ⟨m, e, hm, rfl⟩ := exists_of_valueOf_pos hb hpos
  cases s <;> exact congrArg valueOf (repacked_infinity _)

/-- Nothing but a zero is left by an infinity. -/
theorem valueOf_div_infinity (u : UnpackedFloat) (s : Sign) :
    valueOf (repacked (u.div Format.binary64 (.infinity s))) = none ∨
      valueOf (repacked (u.div Format.binary64 (.infinity s))) = some 0 := by
  cases u with
  | notANumber | infinity s' => exact .inl (congrArg valueOf repacked_notANumber)
  | zero s' | finite s' m e hm => exact .inr (congrArg valueOf (repacked_zero _))

/-! ## Doubles -/

section

variable {x y : Float} {a : EReal} {b : ℝ}

theorem value_div_of_pos (hx : value (ofFloat x) = some a) (hy : value (ofFloat y) = some ↑b)
    (hb : 0 < b) : value (ofFloat (x / y)) = some (Scalar.extended nearest (a / b)) := by
  have hquotient : value (ofFloat (x / y)) =
      valueOf (repacked (x.toModel.unpack.div Format.binary64 y.toModel.unpack)) :=
    value_ofFloat _
  have htop : (b : EReal) ≠ ⊤ := EReal.coe_ne_top b
  have hpos : (0 : EReal) < b := by exact_mod_cast hb
  rw [value_ofFloat] at hx hy
  rw [hquotient]
  induction a with
  | bot =>
    rw [eq_infinity_of_valueOf (s := .negative) hx, valueOf_infinity_div _ hy hb,
      EReal.bot_div_of_pos_ne_top hpos htop, Scalar.extended_bot]
    rfl
  | top =>
    rw [eq_infinity_of_valueOf (s := .positive) hx, valueOf_infinity_div _ hy hb,
      EReal.top_div_of_pos_ne_top hpos htop, Scalar.extended_top]
    rfl
  | coe a => rw [valueOf_div hx hy hb.ne', ← EReal.coe_div, Scalar.extended_coe]

theorem value_mul_of_pos (hx : value (ofFloat x) = some a) (hy : value (ofFloat y) = some ↑b)
    (hb : 0 < b) : value (ofFloat (x * y)) = some (Scalar.extended nearest (a * b)) := by
  have hproduct : value (ofFloat (x * y)) =
      valueOf (repacked (x.toModel.unpack.mul Format.binary64 y.toModel.unpack)) :=
    value_ofFloat _
  induction a with
  | bot =>
    rw [value_ofFloat] at hx hy
    rw [hproduct, eq_infinity_of_valueOf (s := .negative) hx, valueOf_infinity_mul _ hy hb,
      EReal.bot_mul_coe_of_pos hb, Scalar.extended_bot]
    rfl
  | top =>
    rw [value_ofFloat] at hx hy
    rw [hproduct, eq_infinity_of_valueOf (s := .positive) hx, valueOf_infinity_mul _ hy hb,
      EReal.top_mul_coe_of_pos hb, Scalar.extended_top]
    rfl
  | coe a => rw [value_mul hx hy, ← EReal.coe_mul, Scalar.extended_coe]

theorem value_div_top (hy : value (ofFloat y) = some ⊤) :
    value (ofFloat (x / y)) = none ∨ value (ofFloat (x / y)) = some 0 := by
  have hquotient : value (ofFloat (x / y)) =
      valueOf (repacked (x.toModel.unpack.div Format.binary64 y.toModel.unpack)) :=
    value_ofFloat _
  rw [value_ofFloat] at hy
  rw [hquotient, eq_infinity_of_valueOf (s := .positive) hy]
  exact valueOf_div_infinity _ _

end

end Orchestrion.Binary64

namespace Orchestrion

open Binary64 in
/-- Levels are told in doubles. -/
noncomputable instance : Scalar.Levels Float where
  round_neg := nearest_neg
  value_div_of_pos _ _ _ _ hx hy hb := value_div_of_pos hx hy hb
  value_div_top _ _ hy := value_div_top hy
  value_none_div x y hx :=
    (value_eq_none_iff _).mpr (isNaN_div ((value_eq_none_iff x).mp hx) y)
  value_mul_of_pos _ _ _ _ hx hy hb := value_mul_of_pos hx hy hb
  value_none_mul x y hx :=
    (value_eq_none_iff _).mpr (isNaN_mul ((value_eq_none_iff x).mp hx) y)

end Orchestrion

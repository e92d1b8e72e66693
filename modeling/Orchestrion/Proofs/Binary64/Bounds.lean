import Orchestrion.Proofs.Binary64.Integers
import Orchestrion.Proofs.Binary64.Quotient

set_option autoImplicit false

/-!
# Doubles that stay within bounds

The powers of two are doubles, so rounding does not lead beyond them: what is no greater
than a power of two before it is rounded is no greater afterwards.  A sum cannot grow
without end either.  Beside a number that is `2 ^ 54` times as great, a summand is less
than half of the last place and gets lost.
-/

namespace Orchestrion.Binary64

/-! ## Powers of two -/

theorem nearest_two_pow {j : Nat} (h : j ≤ 1023) : nearest (2 ^ j) = ↑((2 : ℝ) ^ j) := by
  have hvalue : ((1 : ℕ) : ℝ) * 2 ^ (j : ℤ) = 2 ^ j := by
    rw [Nat.cast_one, one_mul, zpow_natCast]
  rw [← hvalue]
  refine nearest_of_digits (by norm_num) (by omega) ?_
  rw [hvalue]
  exact pow_lt_pow_right₀ one_lt_two (by omega)

theorem nearest_intCast {n : Int} (h : |n| ≤ 2 ^ 53) : nearest n = ↑(n : ℝ) := by
  obtain ⟨k, rfl | rfl⟩ := n.eq_nat_or_neg
  · rw [Int.abs_natCast] at h
    rw [Int.cast_natCast]
    exact nearest_natCast (by exact_mod_cast h)
  · rw [abs_neg, Int.abs_natCast] at h
    rw [Int.cast_neg, Int.cast_natCast, nearest_neg, nearest_natCast (by exact_mod_cast h),
      EReal.coe_neg]

/-- What is rounded to no more than a bound, and opposite to no more, is finite and within
the bound. -/
theorem exists_nearest_within {r bound : ℝ} (hhigh : nearest r ≤ ↑bound)
    (hlow : nearest (-r) ≤ ↑bound) : ∃ c : ℝ, nearest r = ↑c ∧ |c| ≤ bound := by
  rw [nearest_neg, EReal.neg_le, ← EReal.coe_neg] at hlow
  obtain ⟨c, hc, hle, hge⟩ := Scalar.Faithful.exists_coe_of_between hlow hhigh
  exact ⟨c, hc, abs_le.mpr ⟨hle, hge⟩⟩

theorem exists_nearest_of_abs_le {r : ℝ} {j : Nat} (hj : j ≤ 1023) (h : |r| ≤ 2 ^ j) :
    ∃ c : ℝ, nearest r = ↑c ∧ |c| ≤ 2 ^ j := by
  exact exists_nearest_within ((nearest_mono (abs_le.mp h).2).trans (nearest_two_pow hj).le)
    ((nearest_mono (neg_le.mp (abs_le.mp h).1)).trans (nearest_two_pow hj).le)

/-- A summand that is less than a quarter of the last place gets lost. -/
theorem nearest_saturated {j : Nat} (h : j + 54 ≤ 1023) :
    nearest (2 ^ (j + 54) + 2 ^ j) = ↑((2 : ℝ) ^ (j + 54)) := by
  have hpos : (0 : ℝ) < 2 ^ (j + 54) + 2 ^ j := by positivity
  have hstep : (2 : ℝ) ^ j ≤ 2 ^ (j + 54) := pow_le_pow_right₀ one_le_two (by omega)
  have hlog : Int.log 2 ((2 : ℝ) ^ (j + 54) + 2 ^ j) = j + 54 := by
    have hlow : ((2 : ℕ) : ℝ) ^ ((j + 54 : ℕ) : ℤ) ≤ 2 ^ (j + 54) + 2 ^ j := by
      rw [zpow_natCast, Nat.cast_ofNat]
      exact le_add_of_nonneg_right (by positivity)
    have hhigh : (2 : ℝ) ^ (j + 54) + 2 ^ j < ((2 : ℕ) : ℝ) ^ ((j + 55 : ℕ) : ℤ) := by
      have hsmall : (2 : ℝ) ^ j < 2 ^ (j + 54) := pow_lt_pow_right₀ one_lt_two (by omega)
      rw [zpow_natCast, Nat.cast_ofNat, pow_succ (2 : ℝ) (j + 54)]
      linarith
    have hle := (Int.zpow_le_iff_le_log one_lt_two hpos).mp hlow
    have hlt := (Int.lt_zpow_iff_log_lt one_lt_two hpos).mp hhigh
    omega
  have hplace : lastPlace (2 ^ (j + 54) + 2 ^ j) = ((j + 2 : ℕ) : ℤ) := by
    rw [lastPlace, hlog]
    omega
  have hdigits : digitsOf (2 ^ (j + 54) + 2 ^ j) = 2 ^ 52 := by
    have hquotient : ((2 : ℝ) ^ (j + 54) + 2 ^ j) / 2 ^ ((j + 2 : ℕ) : ℤ) =
        ((2 ^ 52 : ℤ) : ℝ) + 1 / 4 := by
      rw [zpow_natCast, div_eq_iff (by positivity), pow_add, pow_add]
      push_cast
      ring
    rw [digitsOf_eq, hplace, hquotient, Scalar.halfEven]
    have hfloor : ⌊((2 ^ 52 : ℤ) : ℝ) + 1 / 4⌋ = 2 ^ 52 := by
      rw [Int.floor_intCast_add, Int.floor_eq_zero_iff.mpr ⟨by norm_num, by norm_num⟩, add_zero]
    rw [hfloor, add_sub_cancel_left]
    exact if_pos (by norm_num)
  have hvalue : ((2 ^ 52 : ℤ) : ℝ) * 2 ^ ((j + 2 : ℕ) : ℤ) = 2 ^ (j + 54) := by
    rw [zpow_natCast, pow_add, pow_add]
    push_cast
    ring
  rw [nearest_of_nonneg hpos.le, nearestMagnitude_eq, hdigits, hplace, hvalue, clipped,
    if_pos (pow_lt_pow_right₀ one_lt_two (by omega))]

/-! ## Operations -/

/-- Whether a double is finite and no greater than a power of two. -/
def Within (j : Nat) (x : Float) : Prop :=
  ∃ a : ℝ, value (ofFloat x) = some ↑a ∧ |a| ≤ ((2 : ℕ) : ℝ) ^ j

theorem within_iff {j : Nat} {x : Float} :
    Within j x ↔ ∃ a : ℝ, value (ofFloat x) = some ↑a ∧ |a| ≤ 2 ^ j := by
  rw [Within, Nat.cast_ofNat]

theorem within_zero (j : Nat) : Within j 0.0 := by
  refine within_iff.mpr ⟨0, Scalar.Faithful.value_zero (α := Float), ?_⟩
  rw [abs_zero]
  positivity

/-- An integer becomes a number, or it is out of range. -/
theorem ofInt_cases (n : Int) : (Scalar.ofInt n : Except ArithFault Float) = .error .overflow ∨
    ∃ x : Float, Scalar.ofInt n = .ok x := by
  by_cases hinf : (Float.ofInt n).isInf = true
  · exact .inl (if_pos hinf)
  · exact .inr ⟨Float.ofInt n, if_neg hinf⟩

theorem exists_within_ofInt {j : Nat} {n : Int} (hj : j ≤ 1023) (h : |n| ≤ 2 ^ j) :
    ∃ x : Float, Scalar.ofInt n = .ok x ∧ Within j x := by
  have hreal : |(n : ℝ)| ≤ 2 ^ j := by exact_mod_cast h
  obtain ⟨c, hc, hbound⟩ := exists_nearest_of_abs_le hj hreal
  have hvalue := value_ofInt n
  rw [hc] at hvalue
  exact ⟨Float.ofInt n, if_neg (not_isInf_of_value hvalue), within_iff.mpr ⟨c, hvalue, hbound⟩⟩

namespace Within

variable {j k : Nat} {x y : Float}

theorem mul (hx : Within j x) (hy : Within k y) (h : j + k ≤ 1023) : Within (j + k) (x * y) := by
  obtain ⟨a, ha, hja⟩ := within_iff.mp hx
  obtain ⟨b, hb, hkb⟩ := within_iff.mp hy
  have hproduct : |a * b| ≤ 2 ^ (j + k) := by
    rw [abs_mul, pow_add]
    exact mul_le_mul hja hkb (abs_nonneg b) (by positivity)
  obtain ⟨c, hc, hbound⟩ := exists_nearest_of_abs_le h hproduct
  exact within_iff.mpr ⟨c, by rw [value_mul ha hb, hc], hbound⟩

/-- Nothing is gained by a division by a number that is not between one and its opposite. -/
theorem div (hx : Within j x) {b : ℝ} (hy : value (ofFloat y) = some ↑b) (hb : 1 ≤ |b|)
    (h : j ≤ 1023) : Within j (x / y) := by
  obtain ⟨a, ha, hja⟩ := within_iff.mp hx
  have hne : b ≠ 0 := abs_pos.mp (one_pos.trans_le hb)
  have hquotient : |a / b| ≤ 2 ^ j := by
    rw [abs_div, div_le_iff₀ (abs_pos.mpr hne)]
    exact hja.trans (le_mul_of_one_le_right (by positivity) hb)
  obtain ⟨c, hc, hfaithful⟩ := exists_value_div ha hy hne
  have hpow := value_ofInt (2 ^ j)
  rw [Int.cast_pow, Int.cast_ofNat, nearest_two_pow h] at hpow
  have hneg := value_neg (Float.ofInt (2 ^ j))
  rw [hpow, Option.map_some, ← EReal.coe_neg] at hneg
  obtain ⟨r, rfl, hlow, hhigh⟩ := Scalar.Faithful.exists_coe_of_between
    ((hfaithful.between _ _ hneg).2 (EReal.coe_le_coe_iff.mpr (abs_le.mp hquotient).1))
    ((hfaithful.between _ _ hpow).1 (EReal.coe_le_coe_iff.mpr (abs_le.mp hquotient).2))
  exact within_iff.mpr ⟨r, hc, abs_le.mpr ⟨hlow, hhigh⟩⟩

/-- However many summands are added, the sum does not grow beyond `2 ^ 54` times the bound of
each. -/
theorem add (hx : Within (j + 54) x) (hy : Within j y) (h : j + 54 ≤ 1023) :
    Within (j + 54) (x + y) := by
  obtain ⟨a, ha, hja⟩ := within_iff.mp hx
  obtain ⟨b, hb, hjb⟩ := within_iff.mp hy
  obtain ⟨halow, hahigh⟩ := abs_le.mp hja
  obtain ⟨hblow, hbhigh⟩ := abs_le.mp hjb
  have hsum : a + b ≤ 2 ^ (j + 54) + 2 ^ j := add_le_add hahigh hbhigh
  have hopposite : -(a + b) ≤ 2 ^ (j + 54) + 2 ^ j := by linarith
  obtain ⟨c, hc, hbound⟩ := exists_nearest_within
    ((nearest_mono hsum).trans (nearest_saturated h).le)
    ((nearest_mono hopposite).trans (nearest_saturated h).le)
  exact within_iff.mpr ⟨c, by rw [value_add ha hb, hc], hbound⟩

end Within

/-! ## Integers next to a number -/

/-- A number has an integer next to it, or it is infinite. -/
theorem toInteger_cases (divide : Int → Int → Int) {x : Float} {c : EReal}
    (h : value (ofFloat x) = some c) :
    toInteger divide x = .error .overflow ∨ ∃ (a : ℝ) (n : Int), c = ↑a ∧
      toInteger divide x = .ok n := by
  unfold toInteger
  cases hx : ofFloat x with
  | nan =>
    rw [hx] at h
    cases h
  | infinite negative => exact .inl rfl
  | finite negative m e =>
    rw [hx] at h
    exact .inr ⟨_, _, (Option.some.inj h).symm, rfl⟩

theorem exists_toInteger (divide : Int → Int → Int) {j : Nat} {x : Float} (h : Within j x) :
    ∃ n, toInteger divide x = .ok n := by
  obtain ⟨a, ha, -⟩ := h
  unfold toInteger
  cases hx : ofFloat x with
  | nan =>
    rw [hx] at ha
    cases ha
  | infinite negative => exact absurd ((isInf_iff x).mpr ⟨negative, hx⟩) (not_isInf_of_value ha)
  | finite negative m e => exact ⟨_, rfl⟩

end Orchestrion.Binary64

import Orchestrion.Proofs.Binary64.Rounding

set_option autoImplicit false

/-!
# Sums, products and quotients of doubles

The product and the quotient of two finite doubles are found with enough digits to be
rounded, so each is rounded to a neighbour.  A finite double and any number have a sum.
-/

namespace Orchestrion.Binary64

open Float.Model (UnpackedFloat Format totalExponent)
open Float.Model.UnpackedFloat

/-! ## Signs -/

/-- A real number with a sign. -/
def signedReal : Sign → ℝ → ℝ
  | .positive, x => x
  | .negative, x => -x

theorem withSign_coe_eq (s : Sign) (x : ℝ) : withSign s ↑x = ↑(signedReal s x) := by
  cases s <;> rfl

theorem signedReal_mul (s s' : Sign) (x y : ℝ) :
    signedReal (s * s') (x * y) = signedReal s x * signedReal s' y := by
  cases s <;> cases s'
  case negative.negative => exact (neg_mul_neg x y).symm
  case negative.positive => exact (neg_mul x y).symm
  case positive.negative => exact (mul_neg x y).symm
  case positive.positive => rfl

theorem signedReal_div (s s' : Sign) (x y : ℝ) :
    signedReal (s / s') (x / y) = signedReal s x / signedReal s' y := by
  cases s <;> cases s'
  case negative.negative => exact (neg_div_neg_eq x y).symm
  case negative.positive => exact (neg_div y x).symm
  case positive.negative => exact (div_neg x).symm
  case positive.positive => rfl

theorem IsFaithful.withSign {r : ℝ} {c : EReal} (h : IsFaithful r c) (s : Sign) :
    IsFaithful (signedReal s r) (withSign s c) := by
  cases s
  case negative => exact h.neg
  case positive => exact h

theorem isFaithful_self (r : ℝ) : IsFaithful r ↑r :=
  fun _ _ _ _ => ⟨id, id⟩

/-- A number whose value is finite is zero or finite. -/
theorem cases_of_valueOf_coe {u : UnpackedFloat} {a : ℝ} (h : valueOf u = some ↑a) :
    (∃ s, u = .zero s ∧ a = 0) ∨
      ∃ s m e hm, u = .finite s m e hm ∧ a = signedReal s (m * 2 ^ e) := by
  cases u with
  | notANumber => cases h
  | infinity s =>
    have ha : Binary64.withSign s ⊤ = ↑a := Option.some.inj h
    cases s
    case negative => exact absurd ha.symm (EReal.coe_ne_bot a)
    case positive => exact absurd ha.symm (EReal.coe_ne_top a)
  | zero s => exact .inl ⟨s, rfl, EReal.coe_eq_zero.mp (Option.some.inj h).symm⟩
  | finite s m e hm =>
    have ha : Binary64.withSign s ↑((m : ℝ) * 2 ^ e) = ↑a := Option.some.inj h
    rw [withSign_coe_eq, EReal.coe_eq_coe_iff] at ha
    exact .inr ⟨s, m, e, hm, rfl, ha.symm⟩

/-- A zero is what it stands for. -/
theorem exists_repacked_zero (s : Sign) :
    ∃ c, valueOf (repacked (.zero s)) = some c ∧ IsFaithful 0 c := by
  rw [repacked_zero]
  exact ⟨0, rfl, isFaithful_self 0⟩

/-! ## Sums -/

theorem exists_valueOf_normalize (n e : Int) (s : Sign) :
    ∃ a, valueOf (UnpackedFloat.normalize Format.binary64 n e s) = some a := by
  have hround (s : Sign) (m : Nat) :
      ∃ a, valueOf (UnpackedFloat.round Format.binary64 s m e) = some a := by
    rw [UnpackedFloat.round]
    simp only [roundWithAccuracy]
    split
    · exact ⟨_, rfl⟩
    · exact ⟨_, rfl⟩
  rw [UnpackedFloat.normalize]
  split
  · exact hround _ _
  · exact ⟨_, rfl⟩
  · exact hround _ _

theorem exists_add {u v : UnpackedFloat} {a : ℝ} {b : EReal} (ha : valueOf u = some ↑a)
    (hb : valueOf v = some b) :
    ∃ c, valueOf (repacked (u.add Format.binary64 v)) = some c := by
  have hsum : ∃ c, valueOf (u.add Format.binary64 v) = some c := by
    rcases cases_of_valueOf_coe ha with ⟨s, rfl, _⟩ | ⟨s, m, e, hm, rfl, _⟩
    · cases v with
      | notANumber => cases hb
      | infinity s' => exact ⟨_, rfl⟩
      | zero s' => cases s <;> cases s' <;> exact ⟨_, rfl⟩
      | finite s' m' e' hm' => exact ⟨_, rfl⟩
    · cases v with
      | notANumber => cases hb
      | infinity s' => exact ⟨_, rfl⟩
      | zero s' => exact ⟨_, rfl⟩
      | finite s' m' e' hm' => exact exists_valueOf_normalize _ _ _
  obtain ⟨c, hc⟩ := hsum
  exact exists_valueOf_repacked hc

/-! ## Products -/

/-- A product has digits enough to be rounded. -/
theorem exponent_le_mul {m m' : Nat} {e e' : Int} (h : IsNormal m e) (h' : IsNormal m' e')
    (hm : 0 < m) (hm' : 0 < m') :
    e + e' ≤ max ((m * m').log2 + (e + e') - 52) (-1074) := by
  have hlog (hle : 2 ^ 52 ≤ m * m') : 52 ≤ (m * m').log2 :=
    (Nat.le_log2 (Nat.mul_pos hm hm').ne').mpr hle
  rcases h.full with hfull | he
  · have := hlog (hfull.trans (Nat.le_mul_of_pos_right m hm'))
    omega
  · rcases h'.full with hfull' | he'
    · have := hlog (hfull'.trans (Nat.le_mul_of_pos_left m' hm))
      omega
    · omega

theorem exists_mul {u v : UnpackedFloat} {a b : ℝ} (hu : IsCanonical u) (hv : IsCanonical v)
    (ha : valueOf u = some ↑a) (hb : valueOf v = some ↑b) :
    ∃ c, valueOf (repacked (u.mul Format.binary64 v)) = some c ∧ IsFaithful (a * b) c := by
  rcases cases_of_valueOf_coe ha with ⟨s, rfl, rfl⟩ | ⟨s, m, e, hm, rfl, rfl⟩
  · rw [zero_mul]
    rcases cases_of_valueOf_coe hb with ⟨s', rfl, rfl⟩ | ⟨s', m', e', hm', rfl, rfl⟩
    · exact exists_repacked_zero _
    · exact exists_repacked_zero _
  · rcases cases_of_valueOf_coe hb with ⟨s', rfl, rfl⟩ | ⟨s', m', e', hm', rfl, rfl⟩
    · rw [mul_zero]
      exact exists_repacked_zero _
    · have hproduct : (m : ℝ) * 2 ^ e * (m' * 2 ^ e') = ((m * m' : Nat) : ℝ) * 2 ^ (e + e') := by
        rw [zpow_add₀ two_ne_zero]
        push_cast
        ring
      have habove : (m : ℝ) * 2 ^ e * (m' * 2 ^ e') <
          (((m * m' : Nat) : ℝ) + 1) * 2 ^ (e + e') := by
        rw [hproduct]
        exact mul_lt_mul_of_pos_right (lt_add_one _) (by positivity)
      obtain ⟨c, hc, hfaithful⟩ := exists_isFaithful (s * s')
        (exponent_le_mul hu.1 hv.1 hm hm') hproduct.ge habove (fun _ => rfl)
      rw [← signedReal_mul]
      exact ⟨_, hc, hfaithful.withSign _⟩

/-! ## Quotients -/

/-- A quotient has digits enough to be rounded. -/
theorem exponent_le_div {m m' : Nat} {e e' t : Int} (hm : 0 < m) (hm' : 0 < m')
    (ht : t = min (e - e') (max (m.log2 + e - (m'.log2 + e') - 53) (-1074))) :
    t ≤ max ((m <<< (e - e' - t).toNat / m').log2 + t - 52) (-1074) := by
  by_cases hlow : t ≤ -1074
  · omega
  · have hlog : m'.log2 + 1 + 52 ≤ m.log2 + (e - e' - t).toNat := by omega
    have hdigits : 2 ^ 52 ≤ m <<< (e - e' - t).toNat / m' := by
      rw [Nat.le_div_iff_mul_le hm', Nat.shiftLeft_eq]
      calc 2 ^ 52 * m' ≤ 2 ^ 52 * 2 ^ (m'.log2 + 1) :=
            Nat.mul_le_mul_left _ Nat.lt_log2_self.le
        _ = 2 ^ (m'.log2 + 1 + 52) := by rw [← Nat.pow_add, Nat.add_comm]
        _ ≤ 2 ^ (m.log2 + (e - e' - t).toNat) := Nat.pow_le_pow_right two_pos hlog
        _ = 2 ^ m.log2 * 2 ^ (e - e' - t).toNat := Nat.pow_add ..
        _ ≤ m * 2 ^ (e - e' - t).toNat :=
            Nat.mul_le_mul_right _ (Nat.log2_self_le hm.ne')
    have := (Nat.le_log2 (by omega)).mpr hdigits
    omega

/-- The core of a division by its digits, which are enough to be rounded, its exponent and
what is left. -/
theorem exists_divCore {m m' : Nat} (e e' : Int) (hm : 0 < m) (hm' : 0 < m') :
    ∃ (n : Nat) (t : Int),
      divCore Format.binary64 m e m' e' = (n / m', t, accuracyOfFraction (n % m') m') ∧
      t ≤ max ((n / m').log2 + t - 52) (-1074) ∧
      (m : ℝ) * 2 ^ e / (m' * 2 ^ e') = n / m' * 2 ^ t := by
  have htarget : Format.binary64.targetExponent (totalExponent m e - totalExponent m' e') =
      max (m.log2 + e - (m'.log2 + e') - 53) (-1074) := by
    show max ((m.log2 : Int) + 1 + e - (m'.log2 + 1 + e') - (53 : Nat)) (-1074) = _
    congr 1
    omega
  obtain ⟨t, ht⟩ : ∃ t : Int, t = min (e - e') (max (m.log2 + e - (m'.log2 + e') - 53) (-1074)) :=
    ⟨_, rfl⟩
  refine ⟨m <<< (e - e' - t).toNat, t, ?_, exponent_le_div hm hm' ht, ?_⟩
  · rw [divCore, htarget, ← ht]
  · have hexponent : (2 : ℝ) ^ e = 2 ^ (e - e' - t).toNat * 2 ^ t * 2 ^ e' := by
      rw [← zpow_natCast, ← zpow_add₀ two_ne_zero, ← zpow_add₀ two_ne_zero]
      congr 1
      omega
    rw [Nat.shiftLeft_eq, hexponent]
    push_cast
    field_simp

/-- The digits of a quotient and what lies beyond them. -/
theorem exists_roundWithAccuracy_div (s : Sign) {m m' : Nat} (e e' : Int) (hm : 0 < m)
    (hm' : 0 < m') :
    ∃ c, valueOf (repacked (match divCore Format.binary64 m e m' e' with
        | (digits, t, accuracy) => roundWithAccuracy Format.binary64 s digits t accuracy)) =
      some (withSign s c) ∧ IsFaithful (m * 2 ^ e / (m' * 2 ^ e')) c := by
  obtain ⟨n, t, hcore, hdigits, hquotient⟩ := exists_divCore e e' hm hm'
  have hpos : (0 : ℝ) < m' := by exact_mod_cast hm'
  have hlow : ((n / m' : Nat) : ℝ) ≤ n / m' := by
    rw [le_div_iff₀ hpos]
    exact_mod_cast Nat.div_mul_le_self n m'
  have hhigh : (n : ℝ) / m' < (n / m' : Nat) + 1 := by
    rw [div_lt_iff₀ hpos, mul_comm]
    exact_mod_cast Nat.lt_mul_div_succ n hm'
  rw [hcore, hquotient]
  refine exists_isFaithful s hdigits ?_ ?_ ?_
  · exact mul_le_mul_of_nonneg_right hlow (by positivity)
  · exact mul_lt_mul_of_pos_right hhigh (by positivity)
  · intro hexact
    have heq := mul_right_cancel₀ (by positivity) hexact
    rw [div_eq_iff hpos.ne'] at heq
    have hn : n = n / m' * m' := by exact_mod_cast heq
    rw [hn, Nat.mul_mod_left]
    rfl

theorem exists_div {u v : UnpackedFloat} {a b : ℝ} (ha : valueOf u = some ↑a)
    (hb : valueOf v = some ↑b) (hne : b ≠ 0) :
    ∃ c, valueOf (repacked (u.div Format.binary64 v)) = some c ∧ IsFaithful (a / b) c := by
  rcases cases_of_valueOf_coe hb with ⟨s', rfl, rfl⟩ | ⟨s', m', e', hm', rfl, rfl⟩
  · exact absurd rfl hne
  · rcases cases_of_valueOf_coe ha with ⟨s, rfl, rfl⟩ | ⟨s, m, e, hm, rfl, rfl⟩
    · rw [zero_div]
      exact exists_repacked_zero _
    · obtain ⟨c, hc, hfaithful⟩ := exists_roundWithAccuracy_div (s / s') e e' hm hm'
      rw [← signedReal_div]
      exact ⟨_, hc, hfaithful.withSign _⟩

end Orchestrion.Binary64

import Orchestrion.Proofs.Binary64.Packing

set_option autoImplicit false

/-!
# How results are rounded

An exact result lies between two neighbours of a grid, which is as fine as 53 digits or
the least exponent allow, and is rounded to one of them.  Doubles are either on this grid
or so small that they lie below both neighbours.  So no double lies between the exact
result and the rounded one, whichever neighbour has been chosen; an overflow puts the
infinity in the place of what lies above all finite doubles.
-/

namespace Orchestrion.Binary64

open Float.Model (UnpackedFloat Format totalExponent)
open Float.Model.UnpackedFloat

/-! ## Dropping digits -/

theorem mantissa_shiftRight (em : ExtendedMantissa) (k : Nat) :
    (em >>> k).mantissa = em.mantissa / 2 ^ k := by
  induction k with
  | zero => exact (Nat.div_one _).symm
  | succ k ih =>
    show (em >>> k).mantissa / 2 = _
    rw [ih, Nat.div_div_eq_div_mul, Nat.pow_succ]

/-- Digits that are zero are dropped without a trace. -/
theorem shiftRight_exact (a k : Nat) :
    (⟨a * 2 ^ k, false, false⟩ : ExtendedMantissa) >>> k = ⟨a, false, false⟩ := by
  induction k generalizing a with
  | zero => rw [Nat.pow_zero, Nat.mul_one]; rfl
  | succ k ih =>
    have hshift : a * 2 ^ (k + 1) = a * 2 * 2 ^ k := by ring
    show ((⟨a * 2 ^ (k + 1), false, false⟩ : ExtendedMantissa) >>> k).shiftRightOne = _
    rw [hshift, ih, ExtendedMantissa.shiftRightOne, Nat.mul_div_cancel a two_pos,
      Nat.mul_mod_left]
    rfl

theorem roundedMantissa_cases (em : ExtendedMantissa) :
    em.roundedMantissa = em.mantissa ∨ em.roundedMantissa = em.mantissa + 1 := by
  obtain ⟨m, roundBit, stickyBit⟩ := em
  cases roundBit <;> cases stickyBit
  case true.false =>
    show m + m % 2 = m ∨ m + m % 2 = m + 1
    omega
  case true.true => exact .inr rfl
  all_goals exact .inl rfl

/-- Zeros behind a number are as many digits more. -/
theorem log2_add_le_shiftLeft {m : Nat} (hm : 0 < m) (k : Nat) :
    m.log2 + k ≤ (m <<< k).log2 := by
  rw [Nat.shiftLeft_eq, log2_mul_two_pow hm]

theorem targetExponent_binary64 (m : Nat) (e : Int) :
    Format.binary64.targetExponent (totalExponent m e) = max (m.log2 + e - 52) (-1074) := by
  show max ((m.log2 : Int) + 1 + e - (53 : Nat)) (-1074) = _
  congr 1
  omega

/-- Digits that a double holds are kept. -/
theorem shiftToTargetExponent_of_lt {q : Nat} {t : Int} (hq : q < 2 ^ 53) (ht : -1074 ≤ t) :
    shiftToTargetExponent Format.binary64 q t .exact = (⟨q, false, false⟩, t) := by
  have hlog : q.log2 < 53 := log2_lt_of_lt (by norm_num) hq
  have hshift : (max ((q.log2 : Int) + t - 52) (-1074) - t).toNat = 0 := by omega
  rw [shiftToTargetExponent, targetExponent_binary64]
  simp only [shiftToExponent, hshift]
  rw [Int.natCast_zero, Int.add_zero]
  rfl

/-- A carry into one digit more is moved into the exponent. -/
theorem shiftToTargetExponent_of_carry {t : Int} (ht : -1074 ≤ t) :
    shiftToTargetExponent Format.binary64 (2 ^ 53) t .exact = (⟨2 ^ 52, false, false⟩, t + 1) := by
  have hshift : (max (((2 ^ 53 : Nat).log2 : Int) + t - 52) (-1074) - t).toNat = 1 := by
    rw [Nat.log2_two_pow]
    omega
  rw [shiftToTargetExponent, targetExponent_binary64]
  simp only [shiftToExponent, hshift]
  rfl

/-! ## Packing what has been rounded -/

theorem magnitude_lt {m : Nat} {e : Int} (hm : m < 2 ^ 53) (he : e ≤ 971) :
    (m : ℝ) * 2 ^ e < 2 ^ 1024 := by
  calc (m : ℝ) * 2 ^ e < 2 ^ 53 * 2 ^ e := by
        have hm' : (m : ℝ) < 2 ^ 53 := by exact_mod_cast hm
        exact mul_lt_mul_of_pos_right hm' (by positivity)
    _ ≤ 2 ^ 53 * 2 ^ (971 : Int) := by
        have hpow : (2 : ℝ) ^ e ≤ 2 ^ (971 : Int) := zpow_le_zpow_right₀ one_le_two he
        exact mul_le_mul_of_nonneg_left hpow (by positivity)
    _ = 2 ^ 1024 := by rw [zpow_ofNat, ← pow_add]

theorem le_magnitude {m : Nat} {e : Int} (hm : 2 ^ 52 ≤ m) (he : 972 ≤ e) :
    (2 : ℝ) ^ 1024 ≤ m * 2 ^ e := by
  calc (2 : ℝ) ^ 1024 = 2 ^ 52 * 2 ^ (972 : Int) := by rw [zpow_ofNat, ← pow_add]
    _ ≤ 2 ^ 52 * 2 ^ e := by
        have hpow : (2 : ℝ) ^ (972 : Int) ≤ 2 ^ e := zpow_le_zpow_right₀ one_le_two he
        exact mul_le_mul_of_nonneg_left hpow (by positivity)
    _ ≤ m * 2 ^ e := by
        have hm' : (2 : ℝ) ^ 52 ≤ m := by exact_mod_cast hm
        exact mul_le_mul_of_nonneg_right hm' (by positivity)

theorem valueOf_repacked_finite {s : Sign} {m : Nat} {e : Int} {hm : 0 < m} (h : IsNormal m e) :
    valueOf (repacked (.finite s m e hm)) = some (withSign s (clipped (m * 2 ^ e))) := by
  rw [repacked_finite h, clipped]
  by_cases he : e ≤ 971
  · rw [if_pos he, if_pos (magnitude_lt h.lt he)]
    rfl
  · have hfull : 2 ^ 52 ≤ m := h.full.resolve_right (by omega)
    rw [if_neg he, if_neg (not_lt.mpr (le_magnitude hfull (by omega)))]
    rfl

/-- The value of a magnitude that has been rounded to `q * 2 ^ t`. -/
theorem valueOf_roundWithAccuracy {s : Sign} {m : Nat} {e t : Int} {accuracy : Accuracy}
    {em : ExtendedMantissa}
    (hshift : shiftToTargetExponent Format.binary64 m e accuracy = (em, t)) (ht : -1074 ≤ t)
    (hq : em.roundedMantissa ≤ 2 ^ 53) (hfull : 2 ^ 52 ≤ em.roundedMantissa ∨ t = -1074) :
    valueOf (repacked (roundWithAccuracy Format.binary64 s m e accuracy)) =
      some (withSign s (clipped (em.roundedMantissa * 2 ^ t))) := by
  rw [roundWithAccuracy, hshift]
  simp only
  generalize em.roundedMantissa = q at hq hfull ⊢
  rcases Nat.lt_or_eq_of_le hq with hlt | rfl
  · simp only [shiftToTargetExponent_of_lt hlt ht]
    rcases Nat.eq_zero_or_pos q with rfl | hpos
    · have hzero : withSign s (clipped ((0 : Nat) * 2 ^ t)) = 0 := by
        rw [Nat.cast_zero, zero_mul, clipped, if_pos (by positivity)]
        cases s
        case negative => exact neg_zero
        case positive => rfl
      rw [dif_pos rfl, repacked_zero, hzero]
      rfl
    · rw [dif_neg hpos.ne']
      exact valueOf_repacked_finite ⟨hlt, ht, hfull⟩
  · simp only [shiftToTargetExponent_of_carry ht]
    rw [dif_neg (by decide), valueOf_repacked_finite ⟨by decide, by omega, .inl le_rfl⟩]
    congr 3
    push_cast
    rw [zpow_add_one₀ two_ne_zero]
    ring

/-! ## Neighbours -/

/-- A magnitude that lies between the neighbours `low * 2 ^ t` and `(low + 1) * 2 ^ t`
and is rounded to `q * 2 ^ t`, which is one of them. -/
structure IsRounded (r : ℝ) (t : Int) (low q : Nat) : Prop where
  exponent : -1074 ≤ t
  lt : low < 2 ^ 53
  /-- the grid is as fine as the digits allow -/
  full : 2 ^ 52 ≤ low ∨ t = -1074
  below : low * 2 ^ t ≤ r
  above : r < (low + 1) * 2 ^ t
  choice : q = low ∨ q = low + 1 ∧ low * 2 ^ t < r

/-- The mantissa and the exponent of a double of some size, on a grid. -/
theorem on_grid {m : Nat} {e t : Int} (h : t ≤ e) :
    (m : ℝ) * 2 ^ e = ((m * 2 ^ (e - t).toNat : Nat) : ℝ) * 2 ^ t := by
  have hexponent : (2 : ℝ) ^ e = 2 ^ (e - t).toNat * 2 ^ t := by
    rw [← zpow_natCast, ← zpow_add₀ two_ne_zero]
    congr 1
    omega
  rw [hexponent]
  push_cast
  ring

/-- No number of 53 digits lies between a magnitude and what it is rounded to. -/
theorem IsRounded.between {r : ℝ} {t : Int} {low q m : Nat} {e : Int} (h : IsRounded r t low q)
    (hm : m < 2 ^ 53) (he : -1074 ≤ e) :
    (r ≤ m * 2 ^ e → (q : ℝ) * 2 ^ t ≤ m * 2 ^ e) ∧
      (m * 2 ^ e ≤ r → (m : ℝ) * 2 ^ e ≤ q * 2 ^ t) := by
  have hpos : (0 : ℝ) < 2 ^ t := by positivity
  have hlow : low ≤ q := by
    rcases h.choice with rfl | ⟨rfl, _⟩
    · exact Nat.le_refl _
    · exact Nat.le_succ _
  rcases le_or_gt t e with hle | hlt
  · -- the double lies on the grid, so that it is one of the neighbours or outside
    rw [on_grid hle]
    generalize m * 2 ^ (e - t).toNat = j
    constructor
    · intro hr
      rcases h.choice with rfl | ⟨rfl, hchoice⟩
      · exact h.below.trans hr
      · have hj : low < j := by
          have := lt_of_mul_lt_mul_right (hchoice.trans_le hr) hpos.le
          exact_mod_cast this
        have hj' : ((low + 1 : Nat) : ℝ) ≤ j := by exact_mod_cast hj
        exact mul_le_mul_of_nonneg_right hj' hpos.le
    · intro hr
      have hj : (j : ℝ) < low + 1 := lt_of_mul_lt_mul_right (hr.trans_lt h.above) hpos.le
      have hj' : j ≤ low := by
        have : j < low + 1 := by exact_mod_cast hj
        omega
      have hq : (j : ℝ) ≤ q := by exact_mod_cast hj'.trans hlow
      exact mul_le_mul_of_nonneg_right hq hpos.le
  · -- the double is finer than the grid, so that it lies below both neighbours
    have hfull : 2 ^ 52 ≤ low := h.full.resolve_right (by omega)
    have hsmall : (m : ℝ) * 2 ^ e < low * 2 ^ t :=
      lt_of_exponent_lt hm hfull hlt
    refine ⟨fun hr => absurd (hsmall.trans_le h.below) (not_lt.mpr hr), fun _ => ?_⟩
    have hq : (low : ℝ) ≤ q := by exact_mod_cast hlow
    exact hsmall.le.trans (mul_le_mul_of_nonneg_right hq hpos.le)

/-! ## Rounding among all doubles -/

/-- No double lies between a number and what it is rounded to. -/
def IsFaithful (r : ℝ) (c : EReal) : Prop :=
  ∀ u d, IsCanonical u → valueOf u = some d → (↑r ≤ d → c ≤ d) ∧ (d ≤ ↑r → d ≤ c)

theorem IsFaithful.neg {r : ℝ} {c : EReal} (h : IsFaithful r c) : IsFaithful (-r) (-c) := by
  intro u d hu hd
  obtain ⟨hge, hle⟩ := h u.neg (-d) (isCanonical_neg hu) (by rw [valueOf_neg, hd]; rfl)
  rw [EReal.coe_neg]
  exact ⟨fun hr => EReal.neg_le_of_neg_le (hle (EReal.neg_le_of_neg_le hr)),
    fun hr => EReal.le_neg_of_le_neg (hge (EReal.le_neg_of_le_neg hr))⟩

theorem clipped_nonneg {x : ℝ} (h : 0 ≤ x) : 0 ≤ clipped x := by
  rw [clipped]
  split
  · exact_mod_cast h
  · exact le_top

theorem IsRounded.isFaithful {r : ℝ} {t : Int} {low q : Nat} (h : IsRounded r t low q) :
    IsFaithful r (clipped (q * 2 ^ t)) := by
  have hpos : (0 : ℝ) ≤ q * 2 ^ t := by positivity
  have hr : 0 ≤ r := le_trans (by positivity) h.below
  have hmagnitude {m : Nat} {e : Int} (hm : IsNormal m e) (he : e ≤ 971) :
      ((r : EReal) ≤ ↑((m : ℝ) * 2 ^ e) → clipped (q * 2 ^ t) ≤ ↑((m : ℝ) * 2 ^ e)) ∧
        (↑((m : ℝ) * 2 ^ e) ≤ (r : EReal) → ↑((m : ℝ) * 2 ^ e) ≤ clipped (q * 2 ^ t)) := by
    obtain ⟨hge, hle⟩ := h.between hm.lt hm.low
    simp only [EReal.coe_le_coe_iff, clipped]
    split
    · simp only [EReal.coe_le_coe_iff]
      exact ⟨hge, hle⟩
    · -- a magnitude out of range lies above all finite doubles
      rename_i hlarge
      exact ⟨fun hr => absurd ((hge hr).trans_lt (magnitude_lt hm.lt he)) hlarge, fun _ => le_top⟩
  intro u d hu hd
  cases u with
  | notANumber => cases hd
  | infinity s =>
    cases hd
    cases s
    case negative =>
      exact ⟨fun hd => absurd hd (not_le.mpr (EReal.bot_lt_coe r)), fun _ => bot_le⟩
    case positive => exact ⟨fun _ => le_top, fun hd => absurd hd (not_le.mpr (EReal.coe_lt_top r))⟩
  | zero s =>
    cases hd
    have hzero := hmagnitude (m := 0) (e := -1074) ⟨by decide, le_rfl, .inr rfl⟩ (by decide)
    rw [Nat.cast_zero, zero_mul] at hzero
    exact hzero
  | finite s m e hm =>
    cases hd
    cases s
    case negative =>
      have hneg : withSign .negative ↑((m : ℝ) * 2 ^ e) < 0 :=
        EReal.neg_lt_zero.mpr (magnitude_pos e hm)
      have hr' : (0 : EReal) ≤ ↑r := by exact_mod_cast hr
      exact ⟨fun hd => absurd (hr'.trans hd) (not_le.mpr hneg),
        fun _ => hneg.le.trans (clipped_nonneg hpos)⟩
    case positive => exact hmagnitude hu.1 hu.2

/-! ## The rounding of doubles -/

theorem mantissa_ofMantissaAndAccuracy (m : Nat) (accuracy : Accuracy) :
    (ExtendedMantissa.ofMantissaAndAccuracy m accuracy).mantissa = m := by
  cases accuracy with
  | exact => rfl
  | inexact o => cases o <;> rfl

section

variable {m : Nat} {e t : Int}

theorem le_div_of_targetExponent (ht : t = max (m.log2 + e - 52) (-1074)) (he : e ≤ t) :
    2 ^ 52 ≤ m / 2 ^ (t - e).toNat ∨ t = -1074 := by
  by_cases hlow : t = -1074
  · exact .inr hlow
  · have hlog : m.log2 = 52 + (t - e).toNat := by omega
    have hm : m ≠ 0 := by
      rintro rfl
      rw [Nat.log2_zero] at hlog
      omega
    refine .inl ((Nat.le_div_iff_mul_le (by positivity)).mpr ?_)
    rw [← Nat.pow_add, ← hlog]
    exact Nat.log2_self_le hm

/-- A mantissa and what is known of the number beyond it are rounded to a neighbour. -/
theorem isRounded_shiftRight {accuracy : Accuracy} {r : ℝ} {em : ExtendedMantissa}
    (ht : t = max (m.log2 + e - 52) (-1074)) (he : e ≤ t) (hbelow : m * 2 ^ e ≤ r)
    (habove : r < (m + 1) * 2 ^ e) (hexact : r = m * 2 ^ e → accuracy = .exact)
    (hem : em = ExtendedMantissa.ofMantissaAndAccuracy m accuracy >>> (t - e).toNat) :
    IsRounded r t (m / 2 ^ (t - e).toNat) em.roundedMantissa := by
  have hlow := Nat.div_mul_le_self m (2 ^ (t - e).toNat)
  have hhigh : m + 1 ≤ (m / 2 ^ (t - e).toNat + 1) * 2 ^ (t - e).toNat := by
    have := Nat.lt_mul_div_succ m (Nat.two_pow_pos (t - e).toNat)
    rw [Nat.mul_comm]
    exact this
  have hmantissa : em.mantissa = m / 2 ^ (t - e).toNat := by
    rw [hem, mantissa_shiftRight, mantissa_ofMantissaAndAccuracy]
  have hbelow' : ((m / 2 ^ (t - e).toNat : Nat) : ℝ) * 2 ^ t ≤ m * 2 ^ e := by
    rw [on_grid he]
    have hlow' : ((m / 2 ^ (t - e).toNat * 2 ^ (t - e).toNat : Nat) : ℝ) ≤ m := by
      exact_mod_cast hlow
    exact mul_le_mul_of_nonneg_right hlow' (by positivity)
  constructor
  case exponent => omega
  case lt => exact div_two_pow_lt (by omega)
  case full => exact le_div_of_targetExponent ht he
  case below => exact hbelow'.trans hbelow
  case above =>
    have hhigh' : (m : ℝ) + 1 ≤
        (((m / 2 ^ (t - e).toNat + 1) * 2 ^ (t - e).toNat : Nat) : ℝ) := by exact_mod_cast hhigh
    have hgrid := on_grid (m := m / 2 ^ (t - e).toNat + 1) he
    push_cast at hgrid hhigh'
    rw [hgrid]
    exact habove.trans_le (mul_le_mul_of_nonneg_right hhigh' (by positivity))
  case choice =>
    rw [← hmantissa]
    rcases roundedMantissa_cases em with hq | hq
    · exact .inl hq
    · refine .inr ⟨hq, ?_⟩
      rw [hmantissa]
      by_contra hle
      -- nothing has been dropped, so that there was nothing to round
      have hr : r = m * 2 ^ e := le_antisymm ((not_lt.mp hle).trans hbelow') hbelow
      have hdiv : m / 2 ^ (t - e).toNat * 2 ^ (t - e).toNat = m := by
        have heq := le_antisymm hbelow' (hbelow.trans (not_lt.mp hle))
        rw [on_grid he] at heq
        exact_mod_cast mul_right_cancel₀ (by positivity) heq
      have hzero := shiftRight_exact (m / 2 ^ (t - e).toNat) (t - e).toNat
      rw [hdiv] at hzero
      rw [hexact hr, ExtendedMantissa.ofMantissaAndAccuracy, hzero] at hem
      rw [hem] at hq
      exact absurd hq (Nat.ne_of_lt (Nat.lt_succ_self _))

end

/-- Rounding a magnitude of which as much is known as a mantissa, an exponent and an
accuracy say. -/
theorem exists_isRounded (s : Sign) {m : Nat} {e : Int} {accuracy : Accuracy} {r : ℝ}
    (he : e ≤ max (m.log2 + e - 52) (-1074)) (hbelow : m * 2 ^ e ≤ r)
    (habove : r < (m + 1) * 2 ^ e) (hexact : r = m * 2 ^ e → accuracy = .exact) :
    ∃ (t : Int) (low q : Nat), e ≤ t ∧ IsRounded r t low q ∧
      q = (ExtendedMantissa.ofMantissaAndAccuracy m accuracy >>> (t - e).toNat).roundedMantissa ∧
      valueOf (repacked (roundWithAccuracy Format.binary64 s m e accuracy)) =
        some (withSign s (clipped (q * 2 ^ t))) := by
  obtain ⟨t, ht⟩ : ∃ t : Int, t = max (m.log2 + e - 52) (-1074) := ⟨_, rfl⟩
  have het : e ≤ t := ht ▸ he
  have hrounded := isRounded_shiftRight ht het hbelow habove hexact rfl
  have hshift : shiftToTargetExponent Format.binary64 m e accuracy =
      (ExtendedMantissa.ofMantissaAndAccuracy m accuracy >>> (t - e).toNat, t) := by
    rw [shiftToTargetExponent, targetExponent_binary64, ← ht, shiftToExponent]
    simp only [Prod.mk.injEq, true_and]
    omega
  refine ⟨t, _, _, het, hrounded, rfl, valueOf_roundWithAccuracy hshift hrounded.exponent ?_ ?_⟩
  · have := hrounded.lt
    rcases hrounded.choice with hq | ⟨hq, _⟩ <;> omega
  · have := hrounded.full
    rcases hrounded.choice with hq | ⟨hq, _⟩ <;> omega

/-- No double lies between such a magnitude and what it is rounded to. -/
theorem exists_isFaithful (s : Sign) {m : Nat} {e : Int} {accuracy : Accuracy} {r : ℝ}
    (he : e ≤ max (m.log2 + e - 52) (-1074)) (hbelow : m * 2 ^ e ≤ r)
    (habove : r < (m + 1) * 2 ^ e) (hexact : r = m * 2 ^ e → accuracy = .exact) :
    ∃ c, valueOf (repacked (roundWithAccuracy Format.binary64 s m e accuracy)) =
      some (withSign s c) ∧ IsFaithful r c := by
  obtain ⟨t, low, q, _, hrounded, _, hvalue⟩ := exists_isRounded s he hbelow habove hexact
  exact ⟨_, hvalue, hrounded.isFaithful⟩

end Orchestrion.Binary64

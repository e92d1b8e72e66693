import Orchestrion.Proofs.Scalar.Counting
import Orchestrion.Proofs.Scalar.Rounded
import Mathlib.Data.Int.Log

set_option autoImplicit false

/-!
# Doubles round to the nearest

The sum and the product of two finite doubles are the doubles next to the exact ones,
halves to the even neighbour.  Which double is next to a real number is said by the
place of the last digit that a double of its size has; greater numbers have no earlier
last place, so rounding keeps the order.
-/

namespace Orchestrion.Binary64

open Float.Model (UnpackedFloat Format)
open Float.Model.UnpackedFloat

/-! ## The double next to a real number -/

/-- The exponent of the last digit of a double of some size. -/
noncomputable def lastPlace (r : ℝ) : ℤ := max (Int.log 2 r - 52) (-1074)

/-- A magnitude in units of its last digit, rounded to the nearest one. -/
noncomputable def digitsOf (r : ℝ) : ℤ := Scalar.halfEven (r / ((2 : ℕ) : ℝ) ^ lastPlace r)

/-- The double next to a magnitude. -/
noncomputable def nearestMagnitude (r : ℝ) : EReal :=
  clipped (digitsOf r * ((2 : ℕ) : ℝ) ^ lastPlace r)

/-- The double next to a real number. -/
noncomputable def nearest (r : ℝ) : EReal :=
  if 0 ≤ r then nearestMagnitude r else -nearestMagnitude (-r)

theorem digitsOf_eq (r : ℝ) : digitsOf r = Scalar.halfEven (r / 2 ^ lastPlace r) := by
  rw [digitsOf, Nat.cast_ofNat]

theorem nearestMagnitude_eq (r : ℝ) :
    nearestMagnitude r = clipped (digitsOf r * 2 ^ lastPlace r) := by
  rw [nearestMagnitude, Nat.cast_ofNat]

/-! ## Order -/

theorem clipped_mono : Monotone clipped := by
  intro x y h
  rw [clipped, clipped]
  split
  · split
    · exact_mod_cast h
    · exact le_top
  · rename_i hx
    rw [if_neg fun hy => hx (h.trans_lt hy)]

theorem lt_two_pow_lastPlace (r : ℝ) : r < 2 ^ (lastPlace r + 53) := by
  have hlog := Int.lt_zpow_succ_log_self (b := 2) one_lt_two r
  rw [Nat.cast_ofNat] at hlog
  refine hlog.trans_le (zpow_le_zpow_right₀ one_le_two ?_)
  rw [lastPlace]
  omega

/-- A double that does not end at the least place has all of its digits. -/
theorem two_pow_lastPlace_le {r : ℝ} (hr : 0 < r) (h : lastPlace r ≠ -1074) :
    (2 : ℝ) ^ (lastPlace r + 52) ≤ r := by
  have hlog := Int.zpow_log_le_self (b := 2) one_lt_two hr
  rw [Nat.cast_ofNat] at hlog
  refine le_trans (zpow_le_zpow_right₀ one_le_two ?_) hlog
  rw [lastPlace] at h ⊢
  omega

theorem lastPlace_mono {r r' : ℝ} (hr : 0 < r) (h : r ≤ r') : lastPlace r ≤ lastPlace r' :=
  max_le_max_right _ (sub_le_sub_right (Int.log_mono_right hr h) _)

theorem digitsOf_le (r : ℝ) : digitsOf r ≤ 2 ^ 53 := by
  have hle : r / 2 ^ lastPlace r ≤ ((2 ^ 53 : ℤ) : ℝ) := by
    have hpow : (2 : ℝ) ^ (lastPlace r + 53) = 2 ^ (53 : ℤ) * 2 ^ lastPlace r := by
      rw [add_comm, zpow_add₀ two_ne_zero]
    rw [div_le_iff₀ (by positivity), Int.cast_pow]
    exact (lt_two_pow_lastPlace r).le.trans_eq hpow
  exact (Scalar.halfEven_mono hle).trans_eq (Scalar.halfEven_intCast _)

theorem le_digitsOf {r : ℝ} (hr : 0 < r) (h : lastPlace r ≠ -1074) : 2 ^ 52 ≤ digitsOf r := by
  have hle : ((2 ^ 52 : ℤ) : ℝ) ≤ r / 2 ^ lastPlace r := by
    have hpow : (2 : ℝ) ^ (lastPlace r + 52) = 2 ^ (52 : ℤ) * 2 ^ lastPlace r := by
      rw [add_comm, zpow_add₀ two_ne_zero]
    rw [le_div_iff₀ (by positivity), Int.cast_pow]
    exact hpow.symm.trans_le (two_pow_lastPlace_le hr h)
  exact (Scalar.halfEven_intCast _).symm.trans_le (Scalar.halfEven_mono hle)

theorem digitsOf_nonneg {r : ℝ} (hr : 0 ≤ r) : 0 ≤ digitsOf r :=
  Scalar.halfEven_nonneg (by positivity)

theorem nearestMagnitude_zero : nearestMagnitude 0 = 0 := by
  have hzero := Scalar.halfEven_intCast 0
  rw [Int.cast_zero] at hzero
  rw [nearestMagnitude_eq, digitsOf_eq, zero_div, hzero, Int.cast_zero, zero_mul, clipped,
    if_pos (by positivity)]
  rfl

theorem nearestMagnitude_nonneg {r : ℝ} (hr : 0 ≤ r) : 0 ≤ nearestMagnitude r := by
  have hdigits : (0 : ℝ) ≤ digitsOf r := by exact_mod_cast digitsOf_nonneg hr
  exact clipped_nonneg (by positivity)

theorem nearestMagnitude_mono {r r' : ℝ} (hr : 0 ≤ r) (h : r ≤ r') :
    nearestMagnitude r ≤ nearestMagnitude r' := by
  rcases hr.eq_or_lt with rfl | hpos
  · rw [nearestMagnitude_zero]
    exact nearestMagnitude_nonneg h
  · rw [nearestMagnitude_eq, nearestMagnitude_eq]
    refine clipped_mono ?_
    rcases (lastPlace_mono hpos h).eq_or_lt with heq | hlt
    · -- both are rounded on one grid
      have hdigits : (digitsOf r : ℝ) ≤ digitsOf r' := by
        rw [digitsOf_eq, digitsOf_eq, heq]
        exact_mod_cast Scalar.halfEven_mono (div_le_div_of_nonneg_right h (by positivity))
      rw [heq]
      exact mul_le_mul_of_nonneg_right hdigits (by positivity)
    · -- there is a power of two between them
      have hne : lastPlace r' ≠ -1074 := by
        have hlow : -1074 ≤ lastPlace r := le_max_right _ _
        omega
      have hhigh : (digitsOf r : ℝ) ≤ 2 ^ 53 := by exact_mod_cast digitsOf_le r
      have hlow : (2 : ℝ) ^ 52 ≤ digitsOf r' := by
        exact_mod_cast le_digitsOf (hpos.trans_le h) hne
      calc (digitsOf r : ℝ) * 2 ^ lastPlace r ≤ 2 ^ 53 * 2 ^ lastPlace r :=
            mul_le_mul_of_nonneg_right hhigh (by positivity)
        _ = 2 ^ 52 * 2 ^ (lastPlace r + 1) := by
            rw [zpow_add_one₀ two_ne_zero]
            ring
        _ ≤ 2 ^ 52 * 2 ^ lastPlace r' := by
            have hpow : (2 : ℝ) ^ (lastPlace r + 1) ≤ 2 ^ lastPlace r' :=
              zpow_le_zpow_right₀ one_le_two (by omega)
            exact mul_le_mul_of_nonneg_left hpow (by positivity)
        _ ≤ digitsOf r' * 2 ^ lastPlace r' :=
            mul_le_mul_of_nonneg_right hlow (by positivity)

theorem nearest_of_nonneg {r : ℝ} (hr : 0 ≤ r) : nearest r = nearestMagnitude r := if_pos hr

theorem nearest_zero : nearest 0 = 0 := by
  rw [nearest_of_nonneg le_rfl, nearestMagnitude_zero]

theorem nearest_neg (r : ℝ) : nearest (-r) = -nearest r := by
  rcases lt_trichotomy r 0 with hneg | rfl | hpos
  · rw [nearest, nearest, if_pos (by linarith), if_neg (not_le.mpr hneg), neg_neg]
  · rw [neg_zero, nearest_zero, neg_zero]
  · rw [nearest, nearest, if_neg (by linarith), if_pos hpos.le, neg_neg]

theorem nearest_nonneg {r : ℝ} (hr : 0 ≤ r) : 0 ≤ nearest r :=
  (nearestMagnitude_nonneg hr).trans_eq (nearest_of_nonneg hr).symm

/-- Rounding keeps the order. -/
theorem nearest_mono : Monotone nearest := by
  intro r r' h
  rcases le_total 0 r with hr | hr
  · rw [nearest_of_nonneg hr, nearest_of_nonneg (hr.trans h)]
    exact nearestMagnitude_mono hr h
  · have hneg : nearest r = -nearest (-r) := by rw [nearest_neg, neg_neg]
    rcases le_total 0 r' with hr' | hr'
    · have hnonneg : 0 ≤ nearest (-r) := nearest_nonneg (by linarith)
      rw [hneg]
      exact (EReal.neg_le_zero.mpr hnonneg).trans (nearest_nonneg hr')
    · have hneg' : nearest r' = -nearest (-r') := by rw [nearest_neg, neg_neg]
      rw [hneg, hneg', EReal.neg_le_neg_iff, nearest_of_nonneg (by linarith),
        nearest_of_nonneg (by linarith)]
      exact nearestMagnitude_mono (by linarith) (by linarith)

/-! ## Digits that are dropped -/

/-- What a mantissa and its two bits tell of a number: the integer below it, whether the
rest is a half or more, and whether the rest is neither nothing nor a half. -/
structure Tells (em : ExtendedMantissa) (x : ℝ) : Prop where
  floor : ⌊x⌋ = em.mantissa
  half : em.roundBit = true ↔ 1 ≤ 2 * Int.fract x
  rest : em.stickyBit = true ↔ 2 * Int.fract x ≠ 0 ∧ 2 * Int.fract x ≠ 1

theorem tells_exact (m : Nat) : Tells (.ofMantissaAndAccuracy m .exact) m := by
  constructor <;> simp [ExtendedMantissa.ofMantissaAndAccuracy]

theorem Tells.shiftRightOne {em : ExtendedMantissa} {x : ℝ} (h : Tells em x) :
    Tells em.shiftRightOne (x / 2) := by
  have hfloor : ⌊x / 2⌋ = ((em.mantissa / 2 : Nat) : ℤ) := by
    have hdiv := Int.floor_div_natCast x 2
    rw [Nat.cast_ofNat] at hdiv
    rw [hdiv, h.floor, Int.natCast_ediv]
  -- the last digit is the first one that is dropped
  have hfract : 2 * Int.fract (x / 2) = (em.mantissa % 2 : Nat) + Int.fract x := by
    have hx := Int.floor_add_fract x
    have hhalf := Int.floor_add_fract (x / 2)
    have hsplit : (em.mantissa : ℝ) = 2 * (em.mantissa / 2 : Nat) + (em.mantissa % 2 : Nat) := by
      exact_mod_cast (Nat.div_add_mod em.mantissa 2).symm
    rw [h.floor, Int.cast_natCast] at hx
    rw [hfloor, Int.cast_natCast] at hhalf
    linarith
  have hlow := Int.fract_nonneg x
  have hhigh := Int.fract_lt_one x
  have hround : em.shiftRightOne.roundBit = (em.mantissa % 2 != 0) := rfl
  have hsticky : em.shiftRightOne.stickyBit = true ↔ Int.fract x ≠ 0 := by
    show (em.roundBit || em.stickyBit) = true ↔ _
    rw [Bool.or_eq_true, h.half, h.rest]
    constructor
    · rintro (hle | ⟨hne, -⟩) heq
      · linarith
      · exact hne (by rw [heq, mul_zero])
    · intro hne
      rcases le_or_gt 1 (2 * Int.fract x) with hle | hlt
      · exact .inl hle
      · exact .inr ⟨mul_ne_zero two_ne_zero hne, hlt.ne⟩
  refine ⟨hfloor, ?_, ?_⟩
  · rw [hround, hfract]
    rcases Nat.mod_two_eq_zero_or_one em.mantissa with hdigit | hdigit <;> rw [hdigit]
    · simp [hhigh]
    · simp [hlow]
  · rw [hsticky, hfract]
    rcases Nat.mod_two_eq_zero_or_one em.mantissa with hdigit | hdigit <;> rw [hdigit]
    · simp [hhigh.ne]
    · have hne : 1 + Int.fract x ≠ 0 := by linarith
      simp [hne]

/-- Digits that are dropped are still told of. -/
theorem Tells.shiftRight {em : ExtendedMantissa} {x : ℝ} (h : Tells em x) (k : Nat) :
    Tells (em >>> k) (x / 2 ^ k) := by
  induction k with
  | zero =>
    rw [pow_zero, div_one]
    exact h
  | succ k ih =>
    rw [pow_succ, ← div_div]
    exact ih.shiftRightOne

/-- The number that is told of is rounded to the nearest integer. -/
theorem Tells.roundedMantissa {em : ExtendedMantissa} {x : ℝ} (h : Tells em x) :
    (em.roundedMantissa : ℤ) = Scalar.halfEven x := by
  obtain ⟨m, roundBit, stickyBit⟩ := em
  obtain ⟨hfloor, hhalf, hrest⟩ := h
  have hfract : x - ⌊x⌋ + (x - ⌊x⌋) = 2 * Int.fract x := (two_mul _).symm
  rw [Scalar.halfEven]
  simp only [hfract]
  rw [hfloor]
  cases roundBit <;> cases stickyBit
  all_goals
    simp only [Bool.false_eq_true, false_iff, true_iff] at hhalf hrest
  case false.false | false.true =>
    rw [if_pos (not_le.mp hhalf)]
    rfl
  case true.true =>
    rw [if_neg (not_lt.mpr hhalf), if_pos (lt_of_le_of_ne hhalf hrest.2.symm)]
    rfl
  case true.false =>
    have heq : 2 * Int.fract x = 1 := by
      by_contra hne
      exact hrest ⟨by linarith, hne⟩
    rw [heq, if_neg (lt_irrefl _), if_neg (lt_irrefl _)]
    show ((m + m % 2 : Nat) : ℤ) = if (m : ℤ) % 2 = 0 then (m : ℤ) else m + 1
    split <;> omega

/-- What is told without bits is told exactly. -/
theorem Tells.accuracy_eq {m : Nat} {accuracy : Accuracy} {x : ℝ}
    (h : Tells (.ofMantissaAndAccuracy m accuracy) x) (hx : x = m) : accuracy = .exact := by
  obtain ⟨-, hhalf, hrest⟩ := h
  have hfract : Int.fract x = 0 := by rw [hx, Int.fract_natCast]
  rw [hfract] at hhalf hrest
  cases accuracy with
  | exact => rfl
  | inexact o =>
    cases o
    case lt | gt => exact absurd (mul_zero 2) (hrest.mp rfl).1
    case eq => exact absurd (hhalf.mp rfl) (by norm_num)

/-! ## The rounding of results -/

theorem IsRounded.lastPlace_eq {r : ℝ} {t : Int} {low q : Nat} (h : IsRounded r t low q)
    (hr : 0 < r) : lastPlace r = t := by
  have hhigh : r < ((2 : ℕ) : ℝ) ^ (t + 53) := by
    have hlow : (low : ℝ) + 1 ≤ 2 ^ 53 := by exact_mod_cast h.lt
    have hpow : ((2 : ℕ) : ℝ) ^ (t + 53) = 2 ^ 53 * 2 ^ t := by
      rw [Nat.cast_ofNat, add_comm, zpow_add₀ two_ne_zero]
      rfl
    rw [hpow]
    exact h.above.trans_le (mul_le_mul_of_nonneg_right hlow (by positivity))
  have hlog := (Int.lt_zpow_iff_log_lt one_lt_two hr).mp hhigh
  have ht := h.exponent
  rw [lastPlace]
  rcases h.full with hfull | hleast
  · have hlow : ((2 : ℕ) : ℝ) ^ (t + 52) ≤ r := by
      have hfull' : (2 : ℝ) ^ 52 ≤ low := by exact_mod_cast hfull
      have hpow : ((2 : ℕ) : ℝ) ^ (t + 52) = 2 ^ 52 * 2 ^ t := by
        rw [Nat.cast_ofNat, add_comm, zpow_add₀ two_ne_zero]
        rfl
      rw [hpow]
      exact (mul_le_mul_of_nonneg_right hfull' (by positivity)).trans h.below
    have hlog' := (Int.zpow_le_iff_le_log one_lt_two hr).mp hlow
    omega
  · omega

/-- What a magnitude is rounded to, if it is rounded to the nearest. -/
theorem IsRounded.clipped_eq {r : ℝ} {t : Int} {low q : Nat} (h : IsRounded r t low q)
    (hq : (q : ℤ) = Scalar.halfEven (r / 2 ^ t)) : clipped (q * 2 ^ t) = nearestMagnitude r := by
  have hr : 0 ≤ r := le_trans (by positivity) h.below
  rcases hr.eq_or_lt with rfl | hpos
  · rw [zero_div] at hq
    have hzero := Scalar.halfEven_intCast 0
    rw [Int.cast_zero] at hzero
    obtain rfl : q = 0 := by exact_mod_cast hq.trans hzero
    rw [nearestMagnitude_zero, Nat.cast_zero, zero_mul, clipped, if_pos (by positivity)]
    rfl
  · rw [nearestMagnitude_eq, digitsOf_eq, h.lastPlace_eq hpos, ← hq, Int.cast_natCast]

/-- What is told of a magnitude is enough to round it to the nearest. -/
theorem valueOf_round (s : Sign) {m : Nat} {e : Int} {accuracy : Accuracy} {x : ℝ}
    (h : Tells (.ofMantissaAndAccuracy m accuracy) x) (he : e ≤ max (m.log2 + e - 52) (-1074)) :
    valueOf (repacked (roundWithAccuracy Format.binary64 s m e accuracy)) =
      some (withSign s (nearestMagnitude (x * 2 ^ e))) := by
  have hpos : (0 : ℝ) < 2 ^ e := by positivity
  have hfloor : ⌊x⌋ = m := h.floor.trans (by rw [mantissa_ofMantissaAndAccuracy])
  obtain ⟨hlow, hhigh⟩ := Int.floor_eq_iff.mp hfloor
  rw [Int.cast_natCast] at hlow hhigh
  have hexact (heq : x * 2 ^ e = m * 2 ^ e) : accuracy = .exact :=
    h.accuracy_eq (mul_right_cancel₀ hpos.ne' heq)
  obtain ⟨t, low, q, het, hrounded, hq, hvalue⟩ := exists_isRounded s he
    (mul_le_mul_of_nonneg_right hlow hpos.le) (mul_lt_mul_of_pos_right hhigh hpos) hexact
  have hdigits : x * 2 ^ e / 2 ^ t = x / 2 ^ (t - e).toNat := by
    have hexponent : (2 : ℝ) ^ t = 2 ^ e * 2 ^ (t - e).toNat := by
      rw [← zpow_natCast, ← zpow_add₀ two_ne_zero]
      congr 1
      omega
    rw [hexponent, mul_comm x, mul_div_mul_left _ _ hpos.ne']
  rw [hvalue, hrounded.clipped_eq]
  rw [hdigits, ← (h.shiftRight _).roundedMantissa, hq]

theorem valueOf_round_exact (s : Sign) {m : Nat} {e : Int}
    (he : e ≤ max (m.log2 + e - 52) (-1074)) :
    valueOf (repacked (roundWithAccuracy Format.binary64 s m e .exact)) =
      some (withSign s (nearestMagnitude (m * 2 ^ e))) :=
  valueOf_round s (tells_exact m) he

theorem nearest_signedReal (s : Sign) {x : ℝ} (hx : 0 ≤ x) :
    nearest (signedReal s x) = withSign s (nearestMagnitude x) := by
  cases s with
  | positive => exact nearest_of_nonneg hx
  | negative =>
    show nearest (-x) = -nearestMagnitude x
    rw [nearest_neg, nearest_of_nonneg hx]

/-- What a double holds is rounded to itself. -/
theorem nearest_value {u : UnpackedFloat} {a : ℝ} (hu : IsCanonical u)
    (ha : valueOf u = some ↑a) : nearest a = ↑a := by
  rcases cases_of_valueOf_coe ha with ⟨s, rfl, rfl⟩ | ⟨s, m, e, hm, rfl, rfl⟩
  · rw [nearest_zero]
    rfl
  · have hpos : (0 : ℝ) < 2 ^ e := by positivity
    have hrounded : IsRounded (m * 2 ^ e) e m m :=
      ⟨hu.1.low, hu.1.lt, hu.1.full, le_rfl, mul_lt_mul_of_pos_right (lt_add_one _) hpos,
        .inl rfl⟩
    have hdigits : (m : ℤ) = Scalar.halfEven ((m : ℝ) * 2 ^ e / 2 ^ e) := by
      have hcast := Scalar.halfEven_intCast m
      rw [Int.cast_natCast] at hcast
      rw [mul_div_assoc, div_self hpos.ne', mul_one, hcast]
    rw [nearest_signedReal s (by positivity), ← hrounded.clipped_eq hdigits, clipped,
      if_pos (magnitude_lt hu.1.lt hu.2), withSign_coe_eq]

/-! ## Products -/

theorem valueOf_mul {u v : UnpackedFloat} {a b : ℝ} (hu : IsCanonical u) (hv : IsCanonical v)
    (ha : valueOf u = some ↑a) (hb : valueOf v = some ↑b) :
    valueOf (repacked (u.mul Format.binary64 v)) = some (nearest (a * b)) := by
  have hzero (s : Sign) : valueOf (repacked (.zero s)) = some (nearest 0) := by
    rw [repacked_zero, nearest_zero]
    rfl
  rcases cases_of_valueOf_coe ha with ⟨s, rfl, rfl⟩ | ⟨s, m, e, hm, rfl, rfl⟩
  · rw [zero_mul]
    rcases cases_of_valueOf_coe hb with ⟨s', rfl, rfl⟩ | ⟨s', m', e', hm', rfl, rfl⟩
    · exact hzero _
    · exact hzero _
  · rcases cases_of_valueOf_coe hb with ⟨s', rfl, rfl⟩ | ⟨s', m', e', hm', rfl, rfl⟩
    · rw [mul_zero]
      exact hzero _
    · have hproduct : (m : ℝ) * 2 ^ e * (m' * 2 ^ e') = ((m * m' : Nat) : ℝ) * 2 ^ (e + e') := by
        rw [zpow_add₀ two_ne_zero]
        push_cast
        ring
      rw [← signedReal_mul, nearest_signedReal _ (by positivity), hproduct]
      exact valueOf_round_exact (s * s') (exponent_le_mul hu.1 hv.1 hm hm')

/-- A finite product has finite factors. -/
theorem exists_of_valueOf_mul {u v : UnpackedFloat} {c : ℝ}
    (h : valueOf (repacked (u.mul Format.binary64 v)) = some ↑c) :
    (∃ a : ℝ, valueOf u = some ↑a) ∧ ∃ b : ℝ, valueOf v = some ↑b := by
  have hinfinite (s : Sign) : valueOf (repacked (.infinity s)) ≠ some ↑c := by
    rw [repacked_infinity]
    cases s with
    | positive => exact fun h => EReal.coe_ne_top c (Option.some.inj h).symm
    | negative => exact fun h => EReal.coe_ne_bot c (Option.some.inj h).symm
  have hnone : valueOf (repacked .notANumber) ≠ some ↑c := by
    rw [repacked_notANumber]
    exact nofun
  have hfinite (s : Sign) (m : Nat) (e : Int) (hm : 0 < m) :
      ∃ a : ℝ, valueOf (.finite s m e hm) = some ↑a := by
    obtain ⟨a, ha⟩ := withSign_coe s (m * 2 ^ e)
    exact ⟨a, congrArg some ha⟩
  cases u with
  | notANumber => exact absurd h hnone
  | infinity s =>
    cases v with
    | notANumber => exact absurd h hnone
    | infinity s' => exact absurd h (hinfinite _)
    | zero s' => exact absurd h hnone
    | finite s' m' e' hm' => exact absurd h (hinfinite _)
  | zero s =>
    cases v with
    | notANumber => exact absurd h hnone
    | infinity s' => exact absurd h hnone
    | zero s' => exact ⟨⟨0, rfl⟩, 0, rfl⟩
    | finite s' m' e' hm' => exact ⟨⟨0, rfl⟩, hfinite s' m' e' hm'⟩
  | finite s m e hm =>
    cases v with
    | notANumber => exact absurd h hnone
    | infinity s' => exact absurd h (hinfinite _)
    | zero s' => exact ⟨hfinite s m e hm, 0, rfl⟩
    | finite s' m' e' hm' => exact ⟨hfinite s m e hm, hfinite s' m' e' hm'⟩

/-! ## Sums -/

/-- An integer in units of a power of two is rounded to the nearest. -/
theorem valueOf_normalize (n e : Int) (s : Sign) :
    valueOf (repacked (UnpackedFloat.normalize Format.binary64 n e s)) =
      some (nearest (n * 2 ^ e)) := by
  -- digits are added until there are enough of them to be rounded
  have hround (s : Sign) {m : Nat} (hm : m ≠ 0) :
      valueOf (repacked (UnpackedFloat.round Format.binary64 s m e)) =
        some (nearest (signedReal s (m * 2 ^ e))) := by
    rw [UnpackedFloat.round, targetExponent_binary64]
    simp only [UnpackedFloat.decreaseExponent]
    generalize hk : (e - max ((m.log2 : Int) + e - 52) (-1074)).toNat = k
    have hlog := log2_add_le_shiftLeft (Nat.pos_of_ne_zero hm) k
    have hvalue : ((m <<< k : Nat) : ℝ) * 2 ^ (e - k) = m * 2 ^ e := by
      rw [Nat.shiftLeft_eq, zpow_sub₀ two_ne_zero, zpow_natCast]
      push_cast
      field_simp
    rw [nearest_signedReal s (by positivity), ← hvalue]
    exact valueOf_round_exact s (by omega)
  rw [UnpackedFloat.normalize]
  rcases lt_trichotomy n 0 with hneg | rfl | hpos
  · rw [compare_lt_iff_lt.mpr hneg]
    have hcast : signedReal .negative (((-n).toNat : ℝ) * 2 ^ e) = n * 2 ^ e := by
      have hn : (((-n).toNat : ℤ) : ℝ) = -n := by
        rw [Int.toNat_of_nonneg (by omega), Int.cast_neg]
      rw [Int.cast_natCast] at hn
      show -(((-n).toNat : ℝ) * 2 ^ e) = n * 2 ^ e
      rw [hn]
      ring
    rw [← hcast]
    exact hround .negative (by omega)
  · rw [compare_eq_iff_eq.mpr rfl, Int.cast_zero, zero_mul, nearest_zero]
    exact congrArg valueOf (repacked_zero s)
  · rw [compare_gt_iff_gt.mpr hpos]
    have hcast : signedReal .positive ((n.toNat : ℝ) * 2 ^ e) = n * 2 ^ e := by
      have hn : ((n.toNat : ℤ) : ℝ) = n := by rw [Int.toNat_of_nonneg hpos.le]
      rw [Int.cast_natCast] at hn
      show (n.toNat : ℝ) * 2 ^ e = n * 2 ^ e
      rw [hn]
    rw [← hcast]
    exact hround .positive (by omega)

/-- A number in units of a power of two that is not above its last digit. -/
theorem apply_shiftLeft (s : Sign) {m : Nat} {e low : Int} (h : low ≤ e) :
    ((s.apply ↑(m <<< (e - low).toNat) : ℤ) : ℝ) * 2 ^ low = signedReal s (m * 2 ^ e) := by
  have hmagnitude : ((m <<< (e - low).toNat : Nat) : ℝ) * 2 ^ low = m * 2 ^ e := by
    rw [on_grid h, Nat.shiftLeft_eq]
  cases s with
  | positive =>
    show (((m <<< (e - low).toNat : Nat) : ℤ) : ℝ) * 2 ^ low = m * 2 ^ e
    rw [Int.cast_natCast, hmagnitude]
  | negative =>
    show ((-((m <<< (e - low).toNat : Nat) : ℤ) : ℤ) : ℝ) * 2 ^ low = -(m * 2 ^ e)
    rw [Int.cast_neg, Int.cast_natCast, neg_mul, hmagnitude]

theorem valueOf_add {u v : UnpackedFloat} {a b : ℝ} (hu : IsCanonical u) (hv : IsCanonical v)
    (ha : valueOf u = some ↑a) (hb : valueOf v = some ↑b) :
    valueOf (repacked (u.add Format.binary64 v)) = some (nearest (a + b)) := by
  have hself {w : UnpackedFloat} {c : ℝ} (hw : IsCanonical w) (hc : valueOf w = some ↑c) :
      valueOf (repacked w) = some (nearest c) := by
    rw [repacked_of_isCanonical hw, hc, nearest_value hw hc]
  rcases cases_of_valueOf_coe ha with ⟨s, rfl, rfl⟩ | ⟨s, m, e, hm, rfl, rfl⟩
  · rw [zero_add]
    rcases cases_of_valueOf_coe hb with ⟨s', rfl, rfl⟩ | ⟨s', m', e', hm', rfl, rfl⟩
    · cases s <;> cases s' <;> exact hself trivial rfl
    · exact hself hv hb
  · rcases cases_of_valueOf_coe hb with ⟨s', rfl, rfl⟩ | ⟨s', m', e', hm', rfl, rfl⟩
    · rw [add_zero]
      exact hself hu ha
    · rw [← apply_shiftLeft s (min_le_left e e'), ← apply_shiftLeft s' (min_le_right e e'),
        ← add_mul, ← Int.cast_add]
      exact valueOf_normalize _ _ _

theorem valueOf_add_top {u v : UnpackedFloat} {a : ℝ} (ha : valueOf u = some ↑a)
    (hv : valueOf v = some ⊤) : valueOf (repacked (u.add Format.binary64 v)) = some ⊤ := by
  have hinfinite : valueOf (repacked (.infinity .positive)) = some ⊤ := by
    rw [repacked_infinity]
    rfl
  cases v with
  | notANumber => cases hv
  | zero s => exact absurd (Option.some.inj hv) EReal.zero_ne_top
  | finite s m e hm => exact absurd (Option.some.inj hv) (withSign_lt_top s _).ne
  | infinity s =>
    cases s with
    | negative => exact absurd (Option.some.inj hv) bot_ne_top
    | positive =>
      rcases cases_of_valueOf_coe ha with ⟨s, rfl, rfl⟩ | ⟨s, m, e, hm, rfl, rfl⟩
      · exact hinfinite
      · exact hinfinite

/-! ## Integers -/

/-- The nearest integer of a fraction. -/
theorem halfEven_div (n : ℤ) {d : ℕ} (hd : 0 < d) : Scalar.halfEven ((n : ℝ) / d) = divEven n d := by
  have hfloor : ⌊(n : ℝ) / d⌋ = n / d := by rw [Int.floor_div_natCast, Int.floor_intCast]
  have hpos : (0 : ℝ) < d := by exact_mod_cast hd
  have hrest : (n : ℝ) / d - (n / d : ℤ) = ((n % d : ℤ) : ℝ) / d := by
    have hsplit : (n : ℝ) = d * (n / d : ℤ) + (n % d : ℤ) := by
      exact_mod_cast (Int.mul_ediv_add_emod n d).symm
    rw [eq_div_iff hpos.ne', sub_mul, div_mul_cancel₀ _ hpos.ne']
    linarith
  have hlt : ((n % d : ℤ) : ℝ) / d + ((n % d : ℤ) : ℝ) / d < 1 ↔ 2 * (n % d) < d := by
    rw [← add_div, div_lt_one hpos, ← two_mul]
    exact_mod_cast Iff.rfl
  have hgt : 1 < ((n % d : ℤ) : ℝ) / d + ((n % d : ℤ) : ℝ) / d ↔ d < 2 * (n % d) := by
    rw [← add_div, one_lt_div hpos, ← two_mul]
    exact_mod_cast Iff.rfl
  unfold Scalar.halfEven divEven
  simp only [hfloor, hrest, hlt, hgt, Int.fdiv_eq_ediv_of_nonneg _ (Int.natCast_nonneg d),
    Int.fmod_eq_emod_of_nonneg _ (Int.natCast_nonneg d)]

theorem toInteger_divEven_eq_ok_iff {x : Float} {n : Int} :
    toInteger divEven x = .ok n ↔ ∃ a : ℝ, value (ofFloat x) = some ↑a ∧ n = Scalar.halfEven a := by
  have hvalue {a : ℝ} (ha : value (ofFloat x) = some ↑a) :
      toInteger divEven x = .ok (Scalar.halfEven a) :=
    toInteger_eq (scaledBy_eq Scalar.halfEven_intCast fun n d hd => halfEven_div n hd) ha
  constructor
  · intro h
    obtain ⟨a, ha⟩ := exists_of_toInteger h
    rw [hvalue ha] at h
    cases h
    exact ⟨a, ha, rfl⟩
  · rintro ⟨a, ha, rfl⟩
    exact hvalue ha

/-! ## Doubles -/

theorem value_add {x y : Float} {a b : ℝ} (hx : value (ofFloat x) = some ↑a)
    (hy : value (ofFloat y) = some ↑b) : value (ofFloat (x + y)) = some (nearest (a + b)) := by
  rw [value_ofFloat] at hx hy ⊢
  exact valueOf_add (isCanonical_toModel x) (isCanonical_toModel y) hx hy

theorem value_mul {x y : Float} {a b : ℝ} (hx : value (ofFloat x) = some ↑a)
    (hy : value (ofFloat y) = some ↑b) : value (ofFloat (x * y)) = some (nearest (a * b)) := by
  rw [value_ofFloat] at hx hy ⊢
  exact valueOf_mul (isCanonical_toModel x) (isCanonical_toModel y) hx hy

theorem value_add_top {x y : Float} {a : ℝ} (hx : value (ofFloat x) = some ↑a)
    (hy : value (ofFloat y) = some ⊤) : value (ofFloat (x + y)) = some ⊤ := by
  rw [value_ofFloat] at hx hy ⊢
  exact valueOf_add_top hx hy

theorem exists_of_value_mul {x y : Float} {c : ℝ} (h : value (ofFloat (x * y)) = some ↑c) :
    (∃ a : ℝ, value (ofFloat x) = some ↑a) ∧ ∃ b : ℝ, value (ofFloat y) = some ↑b := by
  simp only [value_ofFloat] at h ⊢
  exact exists_of_valueOf_mul h

theorem value_top_mul {x y : Float} (c : ℝ) (hx : value (ofFloat x) = some ⊤) :
    value (ofFloat (x * y)) ≠ some ↑c := by
  intro h
  obtain ⟨⟨a, ha⟩, -⟩ := exists_of_value_mul h
  exact EReal.coe_ne_top a (Option.some.inj (ha.symm.trans hx))

theorem nearest_of_value {x : Float} {a : ℝ} (hx : value (ofFloat x) = some ↑a) :
    nearest a = ↑a := by
  rw [value_ofFloat] at hx
  exact nearest_value (isCanonical_toModel x) hx

end Orchestrion.Binary64

namespace Orchestrion

open Binary64 in
/-- The arithmetic that runs rounds in order. -/
noncomputable instance : Scalar.Rounded Float where
  round := nearest
  round_mono := nearest_mono
  round_value _ _ hx := nearest_of_value hx
  value_add _ _ _ _ hx hy := value_add hx hy
  value_mul _ _ _ _ hx hy := value_mul hx hy
  value_add_top _ _ _ hx hy := value_add_top hx hy
  value_top_mul _ _ c hx := value_top_mul c hx
  value_ofInt _ _ h := exists_coe_of_ofInt h
  nearest_eq_ok_iff _ _ := toInteger_divEven_eq_ok_iff

end Orchestrion

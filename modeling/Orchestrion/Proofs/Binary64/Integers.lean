import Orchestrion.Proofs.Binary64.Nearest
import Orchestrion.Proofs.Scalar.Whole

set_option autoImplicit false

/-!
# Integers among doubles

An integer becomes the double next to it, which is an integer again; up to `2 ^ 53` it is
the integer itself.  Of a double that is not negative, the integer below and the part
behind it are doubles: both need no more digits than the number has.
-/

namespace Orchestrion.Binary64

open Float.Model (UnpackedFloat Format)
open Float.Model.UnpackedFloat

/-! ## Numbers that need no rounding -/

/-- A multiple of the last place that a double of its size has is a double. -/
theorem nearestMagnitude_of_multiple {r : ℝ} (k : ℤ) (h : r = k * 2 ^ lastPlace r)
    (hr : r < 2 ^ 1024) : nearestMagnitude r = ↑r := by
  have hdigits : digitsOf r = k := by
    have hquotient : r / 2 ^ lastPlace r = k := (div_eq_iff (by positivity)).mpr h
    rw [digitsOf_eq, hquotient, Scalar.halfEven_intCast]
  rw [nearestMagnitude_eq, hdigits, ← h, clipped, if_pos hr]

/-- Numbers with few digits do not end before their last one. -/
theorem lastPlace_le {m : Nat} {e : Int} (hm : 0 < m) (hlt : m < 2 ^ 53) (he : -1074 ≤ e) :
    lastPlace (m * 2 ^ e) ≤ e := by
  have hpos : (0 : ℝ) < m * 2 ^ e := by positivity
  have hhigh : (m : ℝ) * 2 ^ e < ((2 : ℕ) : ℝ) ^ (e + 53) := by
    have hm' : (m : ℝ) < 2 ^ 53 := by exact_mod_cast hlt
    rw [Nat.cast_ofNat, add_comm, zpow_add₀ two_ne_zero]
    exact mul_lt_mul_of_pos_right hm' (by positivity)
  have hlog := (Int.lt_zpow_iff_log_lt one_lt_two hpos).mp hhigh
  rw [lastPlace]
  omega

/-- A number with few digits is a double. -/
theorem nearest_of_digits {m : Nat} {e : Int} (hlt : m < 2 ^ 53) (he : -1074 ≤ e)
    (hr : (m : ℝ) * 2 ^ e < 2 ^ 1024) : nearest (m * 2 ^ e) = ↑((m : ℝ) * 2 ^ e) := by
  rw [nearest_of_nonneg (by positivity)]
  rcases Nat.eq_zero_or_pos m with rfl | hm
  · rw [Nat.cast_zero, zero_mul, nearestMagnitude_zero, EReal.coe_zero]
  · have hplace := lastPlace_le hm hlt he
    refine nearestMagnitude_of_multiple (m * 2 ^ (e - lastPlace (m * 2 ^ e)).toNat) ?_ hr
    have hpow : (2 : ℝ) ^ e =
        2 ^ (e - lastPlace (m * 2 ^ e)).toNat * 2 ^ lastPlace (m * 2 ^ e) := by
      rw [← zpow_natCast, ← zpow_add₀ two_ne_zero]
      congr 1
      omega
    push_cast
    rw [mul_assoc, ← hpow]

/-! ## Integers -/

/-- Small integers are doubles. -/
theorem nearest_natCast {n : Nat} (h : n ≤ 2 ^ 53) : nearest n = ↑(n : ℝ) := by
  have hlimit : (2 : ℝ) ^ 53 < 2 ^ 1024 := pow_lt_pow_right₀ one_lt_two (by norm_num)
  rcases h.eq_or_lt with rfl | hlt
  · have hvalue : ((2 ^ 52 : Nat) : ℝ) * 2 ^ (1 : Int) = ((2 ^ 53 : Nat) : ℝ) := by norm_num
    rw [← hvalue]
    refine nearest_of_digits (by norm_num) (by norm_num) ?_
    rw [hvalue]
    exact_mod_cast hlimit
  · have hvalue : (n : ℝ) * 2 ^ (0 : Int) = n := by rw [zpow_zero, mul_one]
    have hn : (n : ℝ) < 2 ^ 53 := by exact_mod_cast hlt
    rw [← hvalue]
    refine nearest_of_digits hlt (by norm_num) ?_
    rw [hvalue]
    exact hn.trans hlimit

/-- The double next to a natural number is one or an infinity. -/
theorem exists_nearest_natCast {n : Nat} {a : ℝ} (h : nearest n = ↑a) : ∃ k : ℤ, a = k := by
  rcases Nat.lt_or_ge n (2 ^ 53) with hlt | hge
  · rw [nearest_natCast hlt.le, EReal.coe_eq_coe_iff] at h
    exact ⟨n, by rw [← h, Int.cast_natCast]⟩
  · have hplace : 0 ≤ lastPlace n := by
      have hlow : ((2 : ℕ) : ℝ) ^ (53 : ℤ) ≤ n := by exact_mod_cast hge
      have hpos : (0 : ℝ) < n := lt_of_lt_of_le (by positivity) hlow
      have hlog := (Int.zpow_le_iff_le_log one_lt_two hpos).mp hlow
      rw [lastPlace]
      omega
    rw [nearest_of_nonneg n.cast_nonneg, nearestMagnitude_eq, clipped] at h
    split at h
    · obtain ⟨k, hk⟩ := Int.eq_ofNat_of_zero_le hplace
      rw [EReal.coe_eq_coe_iff] at h
      refine ⟨digitsOf n * 2 ^ k, ?_⟩
      rw [← h, hk]
      push_cast
      rfl
    · exact absurd h.symm (EReal.coe_ne_top a)

theorem exists_nearest_intCast {n : ℤ} {a : ℝ} (h : nearest n = ↑a) : ∃ k : ℤ, a = k := by
  obtain ⟨m, rfl | rfl⟩ := n.eq_nat_or_neg
  · rw [Int.cast_natCast] at h
    exact exists_nearest_natCast h
  · rw [Int.cast_neg, Int.cast_natCast, nearest_neg] at h
    have hneg : nearest m = ↑(-a) := by rw [EReal.coe_neg, ← h, neg_neg]
    obtain ⟨k, hk⟩ := exists_nearest_natCast hneg
    exact ⟨-k, by rw [Int.cast_neg, ← hk, neg_neg]⟩

/-- A natural number becomes the double next to it. -/
theorem value_ofNat (n : Nat) : value (ofFloat (Float.ofNat n)) = some (nearest n) := by
  rcases Nat.lt_or_ge n (2 ^ 53) with hlt | hge
  · have hnat : n.toUInt64.toNat = n := by
      rw [Nat.toUInt64, UInt64.toNat_ofNat']
      omega
    have hunpack : n.toUInt64.toFloat.toModel.unpack =
        repacked (UnpackedFloat.normalize Format.binary64 n.toUInt64.toNat 0 .positive) := rfl
    have hexact : value (ofFloat n.toUInt64.toFloat) = some ↑(n : ℝ) := by
      rw [value_ofFloat, hunpack, valueOf_normalize, hnat, zpow_zero, mul_one, Int.cast_natCast,
        nearest_natCast hlt.le]
    have hproduct := value_mul (b := 1) hexact (Scalar.Faithful.value_one (α := Float))
    rwa [mul_one, ← ofNat_of_lt hlt] at hproduct
  · have hlog := log2_add_le_shiftLeft (show 0 < n by omega) 53
    have hvalue : ((n <<< 53 : Nat) : ℝ) * 2 ^ (-(53 : Nat) : Int) = n := by
      have hpow : (2 : ℝ) ^ 53 ≠ 0 := by positivity
      rw [Nat.shiftLeft_eq, zpow_neg, zpow_natCast, Nat.cast_mul, Nat.cast_pow, Nat.cast_ofNat]
      exact mul_inv_cancel_right₀ hpow _
    rw [value_ofFloat, ofNat_of_le hge, valueOf_round_exact .positive (by omega), hvalue,
      nearest_of_nonneg n.cast_nonneg]
    rfl

/-- An integer becomes the double next to it. -/
theorem value_ofInt (n : Int) : value (ofFloat (Float.ofInt n)) = some (nearest n) := by
  cases n with
  | ofNat n => exact value_ofNat n
  | negSucc n =>
    have hneg := value_neg (Float.ofNat (n + 1))
    have hcast : ((Int.negSucc n : ℤ) : ℝ) = -((n + 1 : ℕ) : ℝ) := by
      rw [Int.negSucc_eq]
      push_cast
      ring
    rw [value_ofNat] at hneg
    rw [hcast, nearest_neg]
    exact hneg

theorem value_of_ofInt {n : Int} {x : Float} (h : Scalar.ofInt n = .ok x) :
    value (ofFloat x) = some (nearest n) := by
  have hofInt : (if (Float.ofInt n).isInf then .error .overflow else .ok (Float.ofInt n)) =
      Except.ok (ε := ArithFault) x := h
  split at hofInt
  · cases hofInt
  · cases hofInt
    exact value_ofInt n

/-! ## Differences -/

theorem valueOf_sub {u v : UnpackedFloat} {a b : ℝ} (hu : IsCanonical u) (hv : IsCanonical v)
    (ha : valueOf u = some ↑a) (hb : valueOf v = some ↑b) :
    valueOf (repacked (u.sub Format.binary64 v)) = some (nearest (a - b)) := by
  have hself {w : UnpackedFloat} {c : ℝ} (hw : IsCanonical w) (hc : valueOf w = some ↑c) :
      valueOf (repacked w) = some (nearest c) := by
    rw [repacked_of_isCanonical hw, hc, nearest_value hw hc]
  rcases cases_of_valueOf_coe ha with ⟨s, rfl, rfl⟩ | ⟨s, m, e, hm, rfl, rfl⟩
  · rw [zero_sub]
    rcases cases_of_valueOf_coe hb with ⟨s', rfl, rfl⟩ | ⟨s', m', e', hm', rfl, rfl⟩
    · rw [neg_zero]
      cases s <;> cases s' <;> exact hself trivial rfl
    · have hneg := valueOf_neg (.finite s' m' e' hm')
      rw [hb] at hneg
      exact hself (isCanonical_neg hv) hneg
  · rcases cases_of_valueOf_coe hb with ⟨s', rfl, rfl⟩ | ⟨s', m', e', hm', rfl, rfl⟩
    · rw [sub_zero]
      exact hself hu ha
    · rw [← apply_shiftLeft s (min_le_left e e'), ← apply_shiftLeft s' (min_le_right e e'),
        ← sub_mul, ← Int.cast_sub]
      exact valueOf_normalize _ _ _

theorem value_sub {x y : Float} {a b : ℝ} (hx : value (ofFloat x) = some ↑a)
    (hy : value (ofFloat y) = some ↑b) : value (ofFloat (x - y)) = some (nearest (a - b)) := by
  rw [value_ofFloat] at hx hy ⊢
  exact valueOf_sub (isCanonical_toModel x) (isCanonical_toModel y) hx hy

/-- The part of a double behind the integer below it is a double. -/
theorem nearest_fract {x : Float} {a : ℝ} (ha : 0 ≤ a) (hx : value (ofFloat x) = some ↑a) :
    nearest (Int.fract a) = ↑(Int.fract a) := by
  have hzero : nearest 0 = ((0 : ℝ) : EReal) := nearest_zero.trans EReal.coe_zero.symm
  have hcanonical := isCanonical_toModel x
  rw [value_ofFloat] at hx
  rcases cases_of_valueOf_coe hx with ⟨s, -, rfl⟩ | ⟨s, m, e, hm, hu, rfl⟩
  · rw [Int.fract_zero, hzero]
  · have hpos : (0 : ℝ) < m * 2 ^ e := by positivity
    have hsign : signedReal s (m * 2 ^ e) = m * 2 ^ e := by
      cases s with
      | positive => rfl
      | negative => exact absurd ha (not_le.mpr (neg_neg_of_pos hpos))
    rw [hu] at hcanonical
    obtain ⟨⟨hlt, hlow, -⟩, -⟩ := hcanonical
    rw [hsign]
    rcases le_or_gt 0 e with he | he
    · -- the number is an integer
      obtain ⟨k, rfl⟩ := Int.eq_ofNat_of_zero_le he
      have hcast : (m : ℝ) * 2 ^ (k : ℤ) = ((m * 2 ^ k : ℕ) : ℝ) := by
        rw [zpow_natCast]
        push_cast
        rfl
      rw [hcast, Int.fract_natCast, hzero]
    · -- the digits behind the point are the last ones
      obtain ⟨k, rfl⟩ : ∃ k : Nat, e = -k := ⟨(-e).toNat, by omega⟩
      have hquotient (n : ℕ) : (n : ℝ) * 2 ^ (-k : ℤ) = n / (2 ^ k : ℕ) := by
        rw [zpow_neg, zpow_natCast, div_eq_mul_inv]
        push_cast
        rfl
      have hfract : Int.fract ((m : ℝ) * 2 ^ (-k : ℤ)) = (m % 2 ^ k : ℕ) * 2 ^ (-k : ℤ) := by
        rw [hquotient, hquotient, Int.fract_div_natCast_eq_div_natCast_mod]
      have hone : (1 : ℝ) < 2 ^ 1024 := one_lt_pow₀ one_lt_two (by norm_num)
      rw [hfract]
      refine nearest_of_digits ((Nat.mod_le _ _).trans_lt hlt) hlow ?_
      rw [← hfract]
      exact (Int.fract_lt_one _).trans hone

/-! ## Places between integers -/

theorem value_half : value (ofFloat 0.5) = some ↑(1 / 2 : ℝ) := by
  have h : ofFloat 0.5 = .finite false (2 ^ 52) (-53) := by decide +kernel
  rw [h, value_positive]
  norm_num

theorem toInteger_fdiv {x : Float} {a : ℝ} (hx : value (ofFloat x) = some ↑a) :
    toInteger Int.fdiv x = .ok ⌊a⌋ := by
  refine toInteger_eq (scaledBy_eq Int.floor_intCast ?_) hx
  intro n d _
  rw [Int.floor_div_natCast, Int.floor_intCast,
    Int.fdiv_eq_ediv_of_nonneg _ (Int.natCast_nonneg d)]

/-- The part of a double behind its integer is a double. -/
theorem value_fract {x y : Float} {a : ℝ} (ha : 0 ≤ a) (hx : value (ofFloat x) = some ↑a)
    (hy : value (ofFloat y) = some ↑(⌊a⌋ : ℝ)) :
    value (ofFloat (x - y)) = some ↑(Int.fract a) := by
  rw [value_sub hx hy]
  exact congrArg some (nearest_fract ha hx)

end Orchestrion.Binary64

/-! ## The arithmetic that runs -/

namespace Orchestrion

open Binary64 in
/-- Doubles take integers to integers in order. -/
instance : Scalar.KeepsIntegers Float where
  exists_value_ofInt n x h := by
    obtain ⟨a, ha, hnonneg⟩ := exists_coe_of_ofInt h
    have hnearest := value_of_ofInt h
    rw [ha, Option.some_inj] at hnearest
    obtain ⟨k, rfl⟩ := exists_nearest_intCast hnearest.symm
    refine ⟨k, ha, fun hn => by exact_mod_cast hnonneg hn, fun hn => ?_⟩
    have hone : ((1 : ℝ) : EReal) ≤ ((k : ℝ) : EReal) := by
      have hfixed := nearest_natCast (n := 1) (by norm_num)
      rw [Nat.cast_one] at hfixed
      rw [hnearest, ← hfixed]
      exact nearest_mono (by exact_mod_cast hn)
    exact_mod_cast hone
  ofInt_mono m n x y j k hmn hx hy hj hk := by
    have hj' : ((j : ℝ) : EReal) = nearest m := Option.some.inj (hj.symm.trans (value_of_ofInt hx))
    have hk' : ((k : ℝ) : EReal) = nearest n := Option.some.inj (hk.symm.trans (value_of_ofInt hy))
    have hle : ((j : ℝ) : EReal) ≤ ((k : ℝ) : EReal) := by
      rw [hj', hk']
      exact nearest_mono (by exact_mod_cast hmn)
    exact_mod_cast hle

open Binary64 in
/-- Places between integers are told in doubles. -/
noncomputable instance : Scalar.Places Float where
  value x := value (ofFloat x)
  round := nearest
  round_mono := nearest_mono
  le_iff x y := Scalar.Faithful.le_iff x y
  value_half := value_half
  value_mul _ _ _ _ hx hy := value_mul hx hy
  floor_eq _ _ hx := toInteger_fdiv hx
  value_fract _ _ _ ha hx hy := value_fract ha hx hy

/-- Up to `2 ^ 53` all integers are doubles. -/
theorem Binary64.fixesBelow {size : Nat} (h : size ≤ 2 ^ 53 + 1) :
    Scalar.Places.FixesBelow Float size := by
  intro k hk
  have hfixed : Binary64.nearest k = ↑(k : ℝ) := Binary64.nearest_natCast (by omega)
  have hvalue : Binary64.value (Binary64.ofFloat (Float.ofInt k)) = some ↑(k : ℝ) := by
    rw [Binary64.value_ofInt, Int.cast_natCast, hfixed]
  exact ⟨⟨Float.ofInt k, if_neg (Binary64.not_isInf_of_value hvalue), hvalue⟩, hfixed⟩

end Orchestrion

import Orchestrion.Proofs.Binary64.Special
import Orchestrion.Proofs.Scalar.Exact

set_option autoImplicit false

/-!
# Integers that are counted with

A note counts its samples with integers, and its sources count with numbers.  An integer
that has become a number can be read back, though perhaps as another integer when it was
rounded; what is not negative stays so.
-/

namespace Orchestrion

/-- Arithmetic whose numbers can be counted with. -/
class Scalar.Counts (α : Type) [Scalar α] : Prop where
  /-- an integer that is a number can be read back -/
  truncate_ofInt (n : Int) (x : α) (h : Scalar.ofInt n = .ok x) :
    ∃ k, Scalar.truncate x = .ok k ∧ (0 ≤ n → 0 ≤ k)

namespace Binary64

open Float.Model (UnpackedFloat Format)
open Float.Model.UnpackedFloat

/-! ## Natural numbers as doubles -/

/-- A natural number that is written with `k` binary places is rounded to a neighbour of
it, if there are enough of them. -/
theorem exists_rounded {m k : Nat} (hm : 0 < m)
    (hk : -(k : Int) ≤ max (m.log2 - 52 : Int) (-1074)) :
    ∃ c, valueOf (repacked (roundWithAccuracy Format.binary64 .positive (m <<< k) (-k) .exact)) =
      some c ∧ IsFaithful m c := by
  have hdigits := log2_add_le_shiftLeft hm k
  have hplaces : ((m <<< k : Nat) : ℝ) * 2 ^ (-k : Int) = m := by
    rw [Nat.shiftLeft_eq, zpow_neg, zpow_natCast]
    push_cast
    exact mul_inv_cancel_right₀ (by positivity) _
  refine exists_isFaithful .positive (by omega) hplaces.le ?_ (fun _ => rfl)
  have hpos : (0 : ℝ) < 2 ^ (-k : Int) := by positivity
  linarith

theorem exists_value_toFloat (n : UInt64) :
    ∃ c, value (ofFloat n.toFloat) = some c ∧ IsFaithful n.toNat c := by
  have hunpack : n.toFloat.toModel.unpack =
      repacked (UnpackedFloat.normalize Format.binary64 n.toNat 0 .positive) := rfl
  rw [value_ofFloat, hunpack]
  rcases Nat.eq_zero_or_pos n.toNat with hzero | hpos
  · rw [hzero, Nat.cast_zero, Nat.cast_zero]
    exact exists_repacked_zero .positive
  · have hcompare : compare (n.toNat : Int) 0 = .gt := Int.compare_eq_gt.mpr (by omega)
    simp only [UnpackedFloat.normalize, hcompare, UnpackedFloat.round, targetExponent_binary64,
      UnpackedFloat.decreaseExponent, Int.toNat_natCast, zero_sub]
    exact exists_rounded hpos (by omega)

/-- What is rounded faithfully does not become negative. -/
theorem IsFaithful.nonneg {r : ℝ} {c : EReal} (h : IsFaithful r c) (hr : 0 ≤ r) : 0 ≤ c :=
  (h (.zero .positive) 0 trivial rfl).2 (by exact_mod_cast hr)

/-- What is rounded again stays next to the number that it was rounded from. -/
theorem IsFaithful.trans {r a : ℝ} {c : EReal} (h : IsFaithful r a) (h' : IsFaithful a c) :
    IsFaithful r c := fun u d hu hd =>
  ⟨fun hle => (h' u d hu hd).1 ((h u d hu hd).1 hle),
    fun hle => (h' u d hu hd).2 ((h u d hu hd).2 hle)⟩

theorem ofNat_of_lt {n : Nat} (h : n < 2 ^ 53) : Float.ofNat n = n.toUInt64.toFloat * 1.0 := by
  show Float.ofScientific n false 0 = _
  rw [Float.ofScientific, dif_pos ⟨h, by decide⟩]
  rfl

theorem ofNat_of_le {n : Nat} (h : 2 ^ 53 ≤ n) :
    (Float.ofNat n).toModel.unpack =
      repacked (roundWithAccuracy Format.binary64 .positive (n <<< 53) (-(53 : Nat)) .exact) := by
  have hrange : (0 : Int) < 2 ^ Format.binary64.exponentBits := by positivity
  show (Float.ofScientific n false 0).toModel.unpack = _
  rw [Float.ofScientific, dif_neg (by omega)]
  show repacked (UnpackedFloat.ofScientific Format.binary64 n 0) = _
  rw [UnpackedFloat.ofScientific, dif_neg (by omega), if_neg (by omega), if_neg (by omega),
    if_pos le_rfl, UnpackedFloat.mul, Int.toNat_zero, pow_zero, mul_one, add_zero]
  rfl

/-- A natural number becomes a number next to it. -/
theorem exists_value_ofNat (n : Nat) :
    ∃ c, value (ofFloat (Float.ofNat n)) = some c ∧ IsFaithful n c := by
  rcases Nat.lt_or_ge n (2 ^ 53) with hsmall | hlarge
  · have hnat : n.toUInt64.toNat = n := by
      rw [Nat.toUInt64, UInt64.toNat_ofNat']
      omega
    obtain ⟨c, hc, hfaithful⟩ := exists_value_toFloat n.toUInt64
    rw [hnat] at hfaithful
    -- the product is rounded as well, so its first factor has to be finite
    have hlimit : value (ofFloat 9007199254740992.0) = some ((2 ^ 53 : ℝ) : EReal) := by
      have h : ofFloat 9007199254740992.0 = .finite false (2 ^ 52) 1 := by decide +kernel
      rw [h, value_positive]
      norm_num
    have hle : ((n : ℝ) : EReal) ≤ ((2 ^ 53 : ℝ) : EReal) := by exact_mod_cast hsmall.le
    have hnonneg : ((0 : ℝ) : EReal) ≤ c := hfaithful.nonneg n.cast_nonneg
    obtain ⟨a, rfl, -, -⟩ :=
      Scalar.Faithful.exists_coe_of_between hnonneg ((hfaithful.between _ _ hlimit).1 hle)
    obtain ⟨d, hd, hproduct⟩ := exists_value_mul (b := 1) hc (Scalar.Faithful.value_one (α := Float))
    rw [mul_one] at hproduct
    rw [ofNat_of_lt hsmall]
    exact ⟨d, hd, hfaithful.trans hproduct⟩
  · obtain ⟨c, hc, hfaithful⟩ := exists_rounded (m := n) (k := 53) (by omega) (by omega)
    rw [value_ofFloat, ofNat_of_le hlarge]
    exact ⟨c, hc, hfaithful⟩

/-- An integer becomes a number next to it. -/
theorem exists_value_ofInt (n : Int) :
    ∃ c, value (ofFloat (Float.ofInt n)) = some c ∧ IsFaithful n c := by
  cases n with
  | ofNat n => exact exists_value_ofNat n
  | negSucc n =>
    obtain ⟨c, hc, hfaithful⟩ := exists_value_ofNat (n + 1)
    have hneg := value_neg (Float.ofNat (n + 1))
    rw [hc] at hneg
    have hcast : ((Int.negSucc n : ℤ) : ℝ) = -((n + 1 : ℕ) : ℝ) := by
      rw [Int.negSucc_eq]
      push_cast
      ring
    rw [hcast]
    exact ⟨-c, hneg, hfaithful.neg⟩

/-- A number that is no infinity is finite. -/
theorem exists_coe_of_not_isInf {x : Float} {c : EReal} (hc : value (ofFloat x) = some c)
    (h : ¬x.isInf = true) : ∃ a : ℝ, c = ↑a := by
  cases hx : ofFloat x with
  | nan =>
    rw [hx] at hc
    cases hc
  | infinite negative => exact absurd (isInf_of_ofFloat hx) h
  | finite negative m e =>
    rw [hx] at hc
    exact ⟨_, (Option.some.inj hc).symm⟩

theorem not_isInf_of_value {x : Float} {a : ℝ} (h : value (ofFloat x) = some ↑a) :
    ¬x.isInf = true := by
  intro hinf
  obtain ⟨negative, hinfinite⟩ := (isInf_iff x).mp hinf
  rw [hinfinite] at h
  cases negative
  case false => exact absurd (Option.some.inj h).symm (EReal.coe_ne_top a)
  case true => exact absurd (Option.some.inj h).symm (EReal.coe_ne_bot a)

/-- An integer that is a number is a finite one. -/
theorem exists_coe_of_ofInt {n : Int} {x : Float} (h : Scalar.ofInt n = .ok x) :
    ∃ a : ℝ, value (ofFloat x) = some ↑a ∧ (0 ≤ n → 0 ≤ a) := by
  obtain ⟨c, hc, hfaithful⟩ := exists_value_ofInt n
  have hofInt : (if (Float.ofInt n).isInf then .error .overflow else .ok (Float.ofInt n)) =
      Except.ok (ε := ArithFault) x := h
  split at hofInt
  case isTrue => cases hofInt
  case isFalse hfinite =>
    cases hofInt
    obtain ⟨a, rfl⟩ := exists_coe_of_not_isInf hc hfinite
    exact ⟨a, hc, fun hn => by exact_mod_cast hfaithful.nonneg (Int.cast_nonneg hn)⟩

/-- Up to a power of two that is a double, an integer is a number; from one on it is not
zero. -/
theorem exists_ofInt_of_abs_le {n : Int} (h : |n| ≤ 2 ^ 1023) :
    ∃ x : Float, Scalar.ofInt n = .ok x ∧ (1 ≤ n → Scalar.eq x 0.0 = false) := by
  obtain ⟨c, hc, hfaithful⟩ := exists_value_ofInt n
  have hlimit : value (ofFloat (Float.ofBits 0x7FE0000000000000)) =
      some ((2 ^ 1023 : ℝ) : EReal) := by
    have h : ofFloat (Float.ofBits 0x7FE0000000000000) = .finite false (2 ^ 52) 971 := by
      decide +kernel
    have hpow : ((2 ^ 52 : Nat) : ℝ) * 2 ^ (971 : ℤ) = 2 ^ 1023 := by
      rw [Nat.cast_pow, Nat.cast_ofNat, ← zpow_natCast, ← zpow_natCast, ← zpow_add₀ two_ne_zero]
      rfl
    rw [h, value_positive, hpow]
    rfl
  have hneg : value (ofFloat (-Float.ofBits 0x7FE0000000000000)) =
      some ((-2 ^ 1023 : ℝ) : EReal) := by
    rw [value_neg, hlimit]
    rfl
  have hreal : |(n : ℝ)| ≤ 2 ^ 1023 := by
    rw [← Int.cast_abs, ← Int.cast_two, ← Int.cast_pow]
    exact Int.cast_le.mpr h
  obtain ⟨hlow, hhigh⟩ := abs_le.mp hreal
  obtain ⟨a, rfl, -, -⟩ := Scalar.Faithful.exists_coe_of_between
    ((hfaithful.between _ _ hneg).2 (EReal.coe_le_coe_iff.mpr hlow))
    ((hfaithful.between _ _ hlimit).1 (EReal.coe_le_coe_iff.mpr hhigh))
  refine ⟨Float.ofInt n, if_neg (not_isInf_of_value hc), fun hn => ?_⟩
  have hone : ((1 : ℝ) : EReal) ≤ a :=
    (hfaithful.between _ _ (Scalar.Faithful.value_one (α := Float))).2
      (EReal.coe_le_coe_iff.mpr (by exact_mod_cast hn))
  refine Bool.eq_false_iff.mpr fun heq => ?_
  have hzero : value (ofFloat 0.0) = some 0 := Scalar.Faithful.value_zero (α := Float)
  obtain ⟨b, d, hb, hd, rfl⟩ := (beq_iff _ _).mp heq
  cases hc.symm.trans (hb.trans (hd.symm.trans hzero))
  exact absurd hone (by norm_num)

end Binary64

/-- The doubles can be counted with. -/
instance : Scalar.Counts Float where
  truncate_ofInt n x h := by
    obtain ⟨a, ha, hnonneg⟩ := Binary64.exists_coe_of_ofInt h
    refine ⟨_, Binary64.toInteger_tdiv ha, fun hn => ?_⟩
    rw [Scalar.towardZero, if_pos (hnonneg hn)]
    exact Int.floor_nonneg.mpr (hnonneg hn)

namespace Scalar

attribute [local instance] real

/-- The real numbers can be counted with. -/
theorem Counts.real : Counts ℝ where
  truncate_ofInt n x h := by
    cases h
    exact ⟨n, by rw [truncate_real, towardZero_intCast], id⟩

end Scalar

end Orchestrion

import Orchestrion.Proofs.Binary64.Value

set_option autoImplicit false

/-!
# Numbers that have been packed

A number in canonical form comes back from its bit pattern as it was.  One in normal
form whose exponent is too great comes back as an infinity, which is then its place
among the doubles.  In no case what is a number is packed to none.
-/

namespace Orchestrion.Binary64

open Float.Model (UnpackedFloat Format)
open Float.Model.UnpackedFloat

/-- What comes back from the bit pattern of a number. -/
def repacked (u : UnpackedFloat) : UnpackedFloat :=
  unpack Format.binary64 (UnpackedFloat.pack Format.binary64 u)

/-! ## Digits -/

theorem log2_lt_of_lt {m k : Nat} (hk : 0 < k) (h : m < 2 ^ k) : m.log2 < k := by
  rcases Nat.eq_zero_or_pos m with rfl | hpos
  · rwa [Nat.log2_zero]
  · exact (Nat.log2_lt hpos.ne').mpr h

theorem log2_mul_two_pow {m : Nat} (hm : 0 < m) (k : Nat) : (m * 2 ^ k).log2 = m.log2 + k := by
  have hpos : m * 2 ^ k ≠ 0 := by positivity
  rw [Nat.log2_eq_iff hpos, Nat.pow_add, Nat.add_right_comm, Nat.pow_add]
  exact ⟨Nat.mul_le_mul_right _ (Nat.log2_self_le hm.ne'),
    Nat.mul_lt_mul_of_pos_right Nat.lt_log2_self (Nat.two_pow_pos k)⟩

theorem div_two_pow_lt {m k n : Nat} (h : m.log2 + 1 ≤ k + n) : m / 2 ^ k < 2 ^ n := by
  refine Nat.div_lt_of_lt_mul ?_
  calc m < 2 ^ (m.log2 + 1) := Nat.lt_log2_self
    _ ≤ 2 ^ (k + n) := Nat.pow_le_pow_right two_pos h
    _ = 2 ^ k * 2 ^ n := Nat.pow_add ..

theorem mul_two_pow_lt {m k n : Nat} (h : m.log2 + 1 + k ≤ n) : m * 2 ^ k < 2 ^ n := by
  calc m * 2 ^ k < 2 ^ (m.log2 + 1) * 2 ^ k :=
        Nat.mul_lt_mul_of_pos_right Nat.lt_log2_self (Nat.two_pow_pos k)
    _ = 2 ^ (m.log2 + 1 + k) := (Nat.pow_add ..).symm
    _ ≤ 2 ^ n := Nat.pow_le_pow_right two_pos h

/-! ## Fields -/

theorem sign_packComponents {spec : Format} (s : Sign) (field : BitVec spec.exponentBits)
    (fraction : BitVec spec.mantissaBitsWithoutImplicit) :
    Sign.ofBitVec (unpackSign (packComponents spec s field fraction)) = s := by
  have hsign : unpackSign (packComponents spec s field fraction) = s.toBitVec := by
    apply BitVec.eq_of_getLsbD_eq
    intro i hi
    obtain rfl : i = 0 := by omega
    simp [unpackSign, packComponents, BitVec.getLsbD_append, BitVec.getElem_append]
  rw [hsign]
  cases s <;> rfl

theorem unpack_special (s : Sign) (fraction : BitVec 52) :
    unpack Format.binary64 (packComponents Format.binary64 s (-1#_) fraction) =
      if fraction = 0#_ then .infinity s else .notANumber := by
  unfold unpack
  simp only [unpackExponent_packComponents, unpackMantissa_packComponents,
    sign_packComponents, if_true]

theorem unpack_subnormal (s : Sign) (fraction : BitVec 52) (h : 0 < fraction.toNat) :
    unpack Format.binary64 (packComponents Format.binary64 s 0#_ fraction) =
      .finite s fraction.toNat (-1074) h := by
  have hfraction : fraction ≠ 0#_ := fun hzero => by simp [hzero] at h
  have hfield : (0#11 : BitVec 11) ≠ -1#_ := by decide
  unfold unpack
  simp only [unpackExponent_packComponents, unpackMantissa_packComponents,
    sign_packComponents, hfield, hfraction, if_false, if_true, dif_neg, not_false_iff]
  rfl

theorem unpack_normal (s : Sign) (field : BitVec 11) (fraction : BitVec 52)
    (hpos : 0 < field.toNat) (htop : field.toNat < 2047) :
    unpack Format.binary64 (packComponents Format.binary64 s field fraction) =
      .finite s (2 ^ 52 + fraction.toNat) (field.toNat - 1075) (by positivity) := by
  have hzero : field ≠ 0#_ := fun h => by simp [h] at hpos
  have hspecial : field ≠ -1#_ := fun h => by simp [h] at htop
  have hdigits : (1#1 ++ fraction).toNat = 2 ^ 52 + fraction.toNat := by
    rw [BitVec.toNat_append, ← Nat.shiftLeft_add_eq_or_of_lt (BitVec.isLt _)]
    rfl
  unfold unpack
  simp only [unpackExponent_packComponents, unpackMantissa_packComponents,
    sign_packComponents, hzero, hspecial, if_false, hdigits]
  rfl

/-- What is no number has the greatest exponent field. -/
theorem exists_valueOf_packComponents (s : Sign) (field : BitVec 11) (fraction : BitVec 52)
    (h : field.toNat < 2047) :
    ∃ a, valueOf (unpack Format.binary64 (packComponents Format.binary64 s field fraction)) =
      some a := by
  rcases Nat.eq_zero_or_pos field.toNat with hzero | hpos
  · obtain rfl : field = 0#_ := BitVec.eq_of_toNat_eq hzero
    rcases Nat.eq_zero_or_pos fraction.toNat with hfraction | hfraction
    · obtain rfl : fraction = 0#_ := BitVec.eq_of_toNat_eq hfraction
      cases s <;> exact ⟨_, rfl⟩
    · rw [unpack_subnormal s fraction hfraction]
      exact ⟨_, rfl⟩
  · rw [unpack_normal s field fraction hpos h]
    exact ⟨_, rfl⟩

/-! ## Packing and unpacking -/

theorem repacked_finite {s : Sign} {m : Nat} {e : Int} {hm : 0 < m} (h : IsNormal m e) :
    repacked (.finite s m e hm) = if e ≤ 971 then .finite s m e hm else .infinity s := by
  obtain ⟨hlt, hlow, hfull⟩ := h
  have hdigits : m.log2 + 1 = Format.binary64.mantissaBits ↔ 2 ^ 52 ≤ m := by
    have hlog : m.log2 < 53 := log2_lt_of_lt (by norm_num) hlt
    have hle : 52 ≤ m.log2 ↔ 2 ^ 52 ≤ m := Nat.le_log2 hm.ne'
    show m.log2 + 1 = 53 ↔ _
    omega
  have hfield : (e + Format.binary64.exponentBias + (52 : Nat)).toNat = (e + 1075).toNat := by
    rw [exponentBias_binary64]
    congr 1
    omega
  rw [repacked, UnpackedFloat.pack]
  simp only [hfield, hdigits]
  by_cases htop : e ≤ 971
  · rw [if_pos htop, if_neg (by omega)]
    by_cases hfullm : 2 ^ 52 ≤ m
    · rw [if_pos hfullm]
      have hf : (BitVec.ofNat 11 (e + 1075).toNat).toNat = (e + 1075).toNat := by
        rw [BitVec.toNat_ofNat]
        omega
      have hm' : (BitVec.ofNat 52 m).toNat = m - 2 ^ 52 := by
        rw [BitVec.toNat_ofNat]
        omega
      have hsum : 2 ^ 52 + (m - 2 ^ 52) = m := by omega
      have hexponent : ((e + 1075).toNat : Int) - 1075 = e := by omega
      rw [unpack_normal s _ _ (by omega) (by omega)]
      simp only [hf, hm', hsum, hexponent]
    · rw [if_neg hfullm]
      have hm' : (BitVec.ofNat 52 m).toNat = m := by
        rw [BitVec.toNat_ofNat]
        omega
      rw [unpack_subnormal s _ (by omega)]
      simp only [hm']
      congr 1
      omega
  · rw [if_neg htop, if_pos (by omega)]
    exact unpack_special s 0

/-- A number in canonical form comes back as it was. -/
theorem repacked_of_isCanonical {u : UnpackedFloat} (h : IsCanonical u) : repacked u = u := by
  cases u with
  | notANumber => rfl
  | infinity s => exact unpack_special s 0
  | zero s => cases s <;> rfl
  | finite s m e hm => rw [repacked_finite h.1, if_pos h.2]

@[simp] theorem repacked_notANumber : repacked .notANumber = .notANumber :=
  repacked_of_isCanonical trivial

@[simp] theorem repacked_infinity (s : Sign) : repacked (.infinity s) = .infinity s :=
  repacked_of_isCanonical trivial

@[simp] theorem repacked_zero (s : Sign) : repacked (.zero s) = .zero s :=
  repacked_of_isCanonical trivial

/-- What is a number comes back as one. -/
theorem exists_valueOf_repacked {u : UnpackedFloat} {a : EReal} (h : valueOf u = some a) :
    ∃ b, valueOf (repacked u) = some b := by
  cases u with
  | notANumber => cases h
  | infinity s => exact ⟨_, congrArg valueOf (unpack_special s 0)⟩
  | zero s => exact exists_valueOf_packComponents s 0 0 (by decide)
  | finite s m e hm =>
    rw [repacked, UnpackedFloat.pack]
    dsimp only
    split
    · exact ⟨_, congrArg valueOf (unpack_special s 0)⟩
    · split
      · refine exists_valueOf_packComponents s _ _ ?_
        rw [BitVec.toNat_ofNat]
        omega
      · exact exists_valueOf_packComponents s 0 _ (by decide)

end Orchestrion.Binary64

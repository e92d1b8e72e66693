import Orchestrion.Scalar
import Orchestrion.Proofs.Binary64.Encoding

set_option autoImplicit false

/-!
# Numbers of few digits

A magnitude of at most 53 digits within the range of the doubles is encoded as it is, with
zeros behind its digits.  If it has at most 24 of them and is within the range of single
precision, rounding to single precision does not change it, neither before it is encoded
nor after.
-/

namespace Orchestrion.Binary64

open Float.Model (UnpackedFloat Format)
open Float.Model.UnpackedFloat

/-! ## Fields -/

/-- A sign from its bit. -/
def signOf (negative : Bool) : Sign := if negative then .negative else .positive

theorem isNegative_signOf (negative : Bool) : isNegative (signOf negative) = negative := by
  cases negative <;> rfl

theorem toNat_packComponents (s : Sign) (field : BitVec 11) (fraction : BitVec 52) :
    (packComponents Format.binary64 s field fraction).toNat =
      2 ^ 52 * (2 ^ 11 * (isNegative s).toNat + field.toNat) + fraction.toNat := by
  have hsign : s.toBitVec.toNat = (isNegative s).toNat := by cases s <;> rfl
  rw [packComponents, BitVec.toNat_append, BitVec.toNat_append,
    ← Nat.shiftLeft_add_eq_or_of_lt (BitVec.isLt _),
    ← Nat.shiftLeft_add_eq_or_of_lt (BitVec.isLt _), Nat.shiftLeft_eq, Nat.shiftLeft_eq, hsign,
    Nat.mul_comm, Nat.mul_comm _ (2 ^ Format.binary64.exponentBits)]

/-- A double made of three fields, the exponent field being neither zero nor full. -/
theorem ofFloat_pack (negative : Bool) {field fraction : Nat} (hpos : 0 < field)
    (htop : field < 2047) (hfraction : fraction < 2 ^ 52) :
    ofFloat (pack negative field fraction) =
      .finite negative (2 ^ 52 + fraction) (field - 1075) := by
  have hfield' : (BitVec.ofNat 11 field).toNat = field := by
    rw [BitVec.toNat_ofNat]
    omega
  have hfraction' : (BitVec.ofNat 52 fraction).toNat = fraction := by
    rw [BitVec.toNat_ofNat]
    omega
  have hbits : ((if negative then 0x8000000000000000 else 0 : UInt64) |||
      (UInt64.ofNat field <<< 52) ||| UInt64.ofNat fraction).toBitVec =
      packComponents Format.binary64 (signOf negative) (BitVec.ofNat 11 field)
        (BitVec.ofNat 52 fraction) := by
    apply BitVec.eq_of_toNat_eq
    rw [toNat_packComponents, UInt64.toNat_toBitVec, toNat_fields negative (by omega) hfraction,
      isNegative_signOf, hfield', hfraction']
  rw [ofFloat_eq_ofUnpacked, pack, unpack_ofBits, hbits,
    unpack_normal _ _ _ (by omega) (by omega), ofUnpacked, isNegative_signOf, hfield', hfraction']

theorem ofFloat_pack_zero (negative : Bool) :
    ofFloat (pack negative 0 0) = .finite negative 0 (-1074) := by
  cases negative <;> decide +kernel

/-! ## Encoding -/

theorem encode_zero (negative : Bool) (e : Int) : encode negative 0 e = pack negative 0 0 := rfl

/-- Zeros behind a magnitude do not change its double. -/
theorem encode_mul_two_pow (negative : Bool) {m k : Nat} {e : Int} (hm : 0 < m)
    (hdigits : m.log2 + k ≤ 52) (hlow : -1022 ≤ e + m.log2) :
    encode negative (m * 2 ^ k) (e - k) = encode negative m e := by
  have hpos : m * 2 ^ k ≠ 0 := by positivity
  have hlog := log2_mul_two_pow hm k
  have htop : e - k + (m * 2 ^ k).log2 = e + m.log2 := by omega
  have hshift : m * 2 ^ k * 2 ^ (52 - (m.log2 + k)) = m * 2 ^ (52 - m.log2) := by
    rw [Nat.mul_assoc, ← Nat.pow_add]
    congr 2
    omega
  rw [encode, encode, if_neg hpos, if_neg hm.ne', htop, hlog]
  simp only [Nat.shiftLeft_eq, if_pos hlow, if_pos hdigits, hshift,
    if_pos (Nat.le_of_add_right_le hdigits)]

/-- A number is encoded with all of the digits that a double has. -/
theorem ofFloat_encode (negative : Bool) {m : Nat} {e : Int} (hm : 0 < m) (hdigits : m < 2 ^ 53)
    (hlow : -1022 ≤ e + m.log2) (htop : e + m.log2 < 1024) :
    ofFloat (encode negative m e) =
      .finite negative (m * 2 ^ (52 - m.log2)) (e - (52 - m.log2 : Nat)) := by
  have hlog : m.log2 < 53 := log2_lt_of_lt (by norm_num) hdigits
  have hleading : Nat.pow 2 52 = 2 ^ 52 := rfl
  have hleast : 2 ^ 52 ≤ m * 2 ^ (52 - m.log2) := by
    calc 2 ^ 52 = 2 ^ m.log2 * 2 ^ (52 - m.log2) := by
          rw [← Nat.pow_add]
          congr 1
          omega
      _ ≤ m * 2 ^ (52 - m.log2) := Nat.mul_le_mul_right _ (Nat.log2_self_le hm.ne')
  have hgreatest : m * 2 ^ (52 - m.log2) < 2 ^ 53 := mul_two_pow_lt (by omega)
  have hmantissa : 2 ^ 52 + (m * 2 ^ (52 - m.log2) - 2 ^ 52) = m * 2 ^ (52 - m.log2) := by omega
  have hexponent : ((e + m.log2 + 1023).toNat : Int) - 1075 = e - (52 - m.log2 : Nat) := by omega
  rw [encode, if_neg hm.ne']
  simp only [if_neg (not_le.mpr htop), if_pos hlow, if_pos (Nat.lt_succ_iff.mp hlog),
    Nat.shiftLeft_eq, hleading]
  rw [ofFloat_pack negative (by omega) (by omega) (by omega), hmantissa, hexponent]

/-- What is encoded keeps its value. -/
theorem value_encode (negative : Bool) {m : Nat} {e : Int} (hm : m < 2 ^ 53)
    (hlow : -1022 ≤ e + m.log2) (htop : e + m.log2 < 1024) :
    value (ofFloat (encode negative m e)) = some ↑((signed negative m : ℝ) * 2 ^ e) := by
  rcases Nat.eq_zero_or_pos m with rfl | hpos
  · rw [encode_zero, ofFloat_pack_zero, value]
    cases negative <;> simp [signed]
  · have hmagnitude : (signed negative (m * 2 ^ (52 - m.log2)) : ℝ) =
        signed negative m * 2 ^ (52 - m.log2) := by
      cases negative <;> simp [signed]
    rw [ofFloat_encode negative hpos hm hlow htop, value, hmagnitude, zpow_sub₀ two_ne_zero,
      zpow_natCast]
    congr 2
    field_simp

/-! ## Single precision -/

theorem single_of_digits (negative : Bool) {m : Nat} {e : Int} (hm : m < 2 ^ 24)
    (hlow : -149 ≤ e) (htop : e + m.log2 < 128) :
    single (.finite negative m e) = .finite negative m e := by
  have hlog : m.log2 < 24 := log2_lt_of_lt (by norm_num) hm
  rcases Nat.eq_zero_or_pos m with rfl | hpos
  · rfl
  · simp only [single, if_neg hpos.ne', if_neg (not_le.mpr htop)]
    rw [if_pos (by omega)]

/-- Digits that are zero are rounded off without a trace. -/
theorem roundOff_mul (m k : Nat) : roundOff (m * 2 ^ k) k = m := by
  have hunit : Nat.pow 2 k = 2 ^ k := rfl
  have hpos := Nat.two_pow_pos k
  simp only [roundOff, hunit, Nat.mul_div_cancel m hpos, Nat.mul_mod_left]
  rw [if_pos (by omega)]

/-- A double of few digits is one of single precision. -/
theorem single_encode (negative : Bool) {m : Nat} {e : Int} (hm : m < 2 ^ 24)
    (hlow : -126 ≤ e + m.log2) (htop : e + m.log2 < 128) :
    Scalar.single (encode negative m e) = encode negative m e := by
  show (single (ofFloat (encode negative m e))).toFloat = _
  rcases Nat.eq_zero_or_pos m with rfl | hpos
  · rw [encode_zero, ofFloat_pack_zero]
    rfl
  · have hlog : m.log2 < 24 := log2_lt_of_lt (by norm_num) hm
    -- the double has all of its 53 digits, and the last 29 of them are zeros
    have hdigits : m * 2 ^ (52 - m.log2) = m * 2 ^ (23 - m.log2) * 2 ^ 29 := by
      rw [Nat.mul_assoc, ← Nat.pow_add]
      congr 2
      omega
    have hlog' := log2_mul_two_pow hpos (52 - m.log2)
    have hlog'' := log2_mul_two_pow hpos (23 - m.log2)
    have hpos' : m * 2 ^ (52 - m.log2) ≠ 0 := by positivity
    have hunit : max (e - (52 - m.log2 : Nat) + (m * 2 ^ (52 - m.log2)).log2 - 23) (-149) =
        e - (23 - m.log2 : Nat) := by omega
    have hshift : (e - (23 - m.log2 : Nat) - (e - (52 - m.log2 : Nat))).toNat = 29 := by omega
    have htop' : ¬128 ≤ e - (23 - m.log2 : Nat) + (m * 2 ^ (23 - m.log2)).log2 := by omega
    rw [ofFloat_encode negative hpos (by omega) (by omega) (by omega), single]
    simp only [if_neg hpos', hunit, hshift]
    rw [if_neg (by omega), hdigits, roundOff_mul, if_neg (fun h => htop' h.1)]
    exact encode_mul_two_pow negative hpos (by omega) (by omega)

end Orchestrion.Binary64

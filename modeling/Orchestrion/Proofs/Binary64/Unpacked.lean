import Orchestrion.Binary64
import Mathlib

set_option autoImplicit false

/-!
# Doubles as the arithmetic sees them

The arithmetic of doubles works on unpacked numbers: a sign, a mantissa and an
exponent, or one of the special cases.  `ofFloat` takes the same apart from the bit
pattern, so the two readings of a double agree.
-/

namespace Orchestrion.Binary64

open Float.Model (UnpackedFloat Format)
open Float.Model.UnpackedFloat

/-- Whether a sign is the negative one. -/
def isNegative : Sign → Bool
  | .negative => true
  | .positive => false

/-- What an unpacked number denotes. -/
def ofUnpacked : UnpackedFloat → Binary64
  | .notANumber => .nan
  | .infinity s => .infinite (isNegative s)
  | .zero s => .finite (isNegative s) 0 (-1074)
  | .finite s m e _ => .finite (isNegative s) m e

/-! ## The fields of a bit pattern -/

variable (bits : UInt64)

theorem toNat_unpackMantissa :
    (@unpackMantissa Format.binary64 bits.toBitVec).toNat = bits.toNat % 2 ^ 52 := by
  simp [unpackMantissa]

theorem toNat_unpackExponent :
    (@unpackExponent Format.binary64 bits.toBitVec).toNat = bits.toNat / 2 ^ 52 % 2 ^ 11 := by
  simp [unpackExponent, Nat.shiftRight_eq_div_pow]

theorem toNat_fraction : (bits &&& 0xfffffffffffff).toNat = bits.toNat % 2 ^ 52 := by
  rw [UInt64.toNat_and]
  exact Nat.and_two_pow_sub_one_eq_mod _ 52

theorem toNat_field : ((bits >>> 52) &&& 0x7ff).toNat = bits.toNat / 2 ^ 52 % 2 ^ 11 := by
  rw [UInt64.toNat_and, UInt64.toNat_shiftRight]
  simp only [Nat.shiftRight_eq_div_pow]
  exact Nat.and_two_pow_sub_one_eq_mod _ 11

theorem toNat_unpackSign :
    (@unpackSign Format.binary64 bits.toBitVec).toNat = (bits >>> 63).toNat := by
  have hlt := bits.toNat_lt
  rw [UInt64.toNat_shiftRight]
  simp [unpackSign, Nat.shiftRight_eq_div_pow]
  omega

theorem isNegative_unpackSign :
    isNegative (Sign.ofBitVec (@unpackSign Format.binary64 bits.toBitVec)) =
      (bits >>> 63 == 1) := by
  have hsign := toNat_unpackSign bits
  by_cases h : bits >>> 63 = 1
  · rw [h] at hsign
    have hone : @unpackSign Format.binary64 bits.toBitVec = 1#1 :=
      BitVec.eq_of_toNat_eq hsign
    rw [hone, h]
    rfl
  · have hzero : @unpackSign Format.binary64 bits.toBitVec = 0#1 := by
      apply BitVec.eq_of_toNat_eq
      have hlt := (@unpackSign Format.binary64 bits.toBitVec).isLt
      have hne : (bits >>> 63).toNat ≠ 1 := fun hone => h (UInt64.toNat_inj.mp hone)
      rw [BitVec.toNat_ofNat]
      omega
    rw [hzero, beq_false_of_ne h]
    rfl

/-! ## Two readings of a double -/

theorem ofFloat_eq_ofUnpacked (x : Float) : ofFloat x = ofUnpacked x.toModel.unpack := by
  have hmantissa := (toNat_unpackMantissa x.toBits).trans (toNat_fraction x.toBits).symm
  have hexponent := (toNat_unpackExponent x.toBits).trans (toNat_field x.toBits).symm
  have hsign := isNegative_unpackSign x.toBits
  have hbits : x.toModel.unpack = unpack Format.binary64 x.toBits.toBitVec := rfl
  have hzero {w : Nat} (b : BitVec w) : b = 0#w ↔ b.toNat = 0 :=
    ⟨fun h => h ▸ rfl, fun h => BitVec.eq_of_toNat_eq h⟩
  have htop : @unpackExponent Format.binary64 x.toBits.toBitVec = -1#_ ↔
      (@unpackExponent Format.binary64 x.toBits.toBitVec).toNat = 2047 :=
    ⟨fun h => h ▸ rfl, fun h => BitVec.eq_of_toNat_eq h⟩
  rw [hbits, ofFloat]
  simp only [← hmantissa, ← hexponent, ← hsign]
  unfold unpack
  simp only [htop, hzero]
  split
  case isTrue => split <;> rfl
  case isFalse =>
    split
    case isTrue hfield =>
      split
      case isTrue hfraction =>
        rw [hfraction]
        rfl
      case isFalse =>
        rw [ofUnpacked, hfield]
        rfl
    case isFalse =>
      -- the leading digit of a normal number is not in the bit pattern
      rw [ofUnpacked, BitVec.toNat_append, ← Nat.shiftLeft_add_eq_or_of_lt (BitVec.isLt _)]
      rfl

/-- A double that denotes an infinity is one. -/
theorem isInf_of_ofFloat {x : Float} {negative : Bool} (h : ofFloat x = .infinite negative) :
    x.isInf = true := by
  rw [ofFloat_eq_ofUnpacked] at h
  show x.toModel.unpack.isInf = true
  cases hunpack : x.toModel.unpack with
  | infinity s => rfl
  | notANumber =>
    rw [hunpack] at h
    cases h
  | zero s =>
    rw [hunpack] at h
    cases h
  | finite s m e hm =>
    rw [hunpack] at h
    cases h

end Orchestrion.Binary64

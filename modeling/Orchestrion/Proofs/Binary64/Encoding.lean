import Orchestrion.Proofs.Binary64.Packing

set_option autoImplicit false

/-!
# Numbers that have been encoded

Three fields make a double that is a number, unless the exponent field is the greatest
one and the fraction is not zero.  Encoding a decoded number never asks for that, so
what is rounded to single precision stays a number.
-/

namespace Orchestrion.Binary64

open Float.Model (UnpackedFloat Format)
open Float.Model.UnpackedFloat

/-! ## Fields -/

theorem unpack_ofBits (bits : UInt64) :
    (Float.ofBits bits).toModel.unpack = unpack Format.binary64 bits.toBitVec :=
  repacked_of_isCanonical (isCanonical_unpack bits.toBitVec)

theorem toNat_signBit (negative : Bool) :
    (if negative then 0x8000000000000000 else 0 : UInt64).toNat = 2 ^ 63 * negative.toNat := by
  cases negative <;> rfl

theorem toNat_fields (negative : Bool) {field fraction : Nat} (hfield : field < 2 ^ 11)
    (hfraction : fraction < 2 ^ 52) :
    ((if negative then 0x8000000000000000 else 0 : UInt64) ||| (UInt64.ofNat field <<< 52) |||
      UInt64.ofNat fraction).toNat = 2 ^ 52 * (2 ^ 11 * negative.toNat + field) + fraction := by
  have hfield' : (UInt64.ofNat field <<< 52).toNat = 2 ^ 52 * field := by
    rw [UInt64.toNat_shiftLeft, UInt64.toNat_ofNat']
    simp [Nat.shiftLeft_eq]
    omega
  have hfraction' : (UInt64.ofNat fraction).toNat = fraction := by
    rw [UInt64.toNat_ofNat']
    omega
  have hsum : 2 ^ 63 * negative.toNat + 2 ^ 52 * field =
      2 ^ 52 * (2 ^ 11 * negative.toNat + field) := by ring
  rw [UInt64.toNat_or, UInt64.toNat_or, toNat_signBit, hfield', hfraction',
    ← Nat.two_pow_add_eq_or_of_lt (by omega), hsum, ← Nat.two_pow_add_eq_or_of_lt hfraction]

/-- What is no number has the greatest exponent field and a fraction. -/
theorem exists_valueOf_unpack {bits : BitVec Format.binary64.numBits}
    (h : (unpackExponent bits).toNat = 2047 → (unpackMantissa bits).toNat = 0) :
    ∃ a, valueOf (unpack Format.binary64 bits) = some a := by
  unfold unpack
  dsimp only
  split
  case isTrue htop =>
    have hfraction : unpackMantissa bits = 0#_ := BitVec.eq_of_toNat_eq (h (htop ▸ rfl))
    rw [if_pos hfraction]
    exact ⟨_, rfl⟩
  case isFalse =>
    split
    case isTrue => split <;> exact ⟨_, rfl⟩
    case isFalse => exact ⟨_, rfl⟩

/-- A double made of three fields is a number. -/
theorem exists_valueOf_pack (negative : Bool) {field fraction : Nat} (hfield : field < 2 ^ 11)
    (hfraction : fraction < 2 ^ 52) (hspecial : field = 2047 → fraction = 0) :
    ∃ a, valueOf (pack negative field fraction).toModel.unpack = some a := by
  rw [pack, unpack_ofBits]
  refine exists_valueOf_unpack ?_
  rw [toNat_unpackExponent, toNat_unpackMantissa, toNat_fields negative hfield hfraction]
  intro htop
  omega

/-! ## Decoded numbers -/

theorem exists_valueOf_encode (negative : Bool) (m : Nat) (e : Int) :
    ∃ a, valueOf (encode negative m e).toModel.unpack = some a := by
  rw [encode]
  by_cases hm : m = 0
  · rw [if_pos hm]
    exact exists_valueOf_pack negative (by decide) (by decide) (fun _ => rfl)
  · rw [if_neg hm]
    simp only [Nat.shiftLeft_eq, Nat.shiftRight_eq_div_pow]
    split
    case isTrue => exact exists_valueOf_pack negative (by decide) (by decide) (fun _ => rfl)
    case isFalse htop =>
      split
      case isTrue =>
        have hdigits : (if m.log2 ≤ 52 then m * 2 ^ (52 - m.log2) else m / 2 ^ (m.log2 - 52)) <
            2 ^ 53 := by
          split
          · exact mul_two_pow_lt (by omega)
          · exact div_two_pow_lt (by omega)
        have hleading : Nat.pow 2 52 = 2 ^ 52 := rfl
        rw [hleading]
        exact exists_valueOf_pack negative (by omega) (by omega) (fun h => absurd h (by omega))
      case isFalse =>
        refine exists_valueOf_pack negative (by decide) ?_ (fun h => absurd h (by decide))
        split
        · exact mul_two_pow_lt (by omega)
        · exact div_two_pow_lt (by omega)

/-- A decoded number is encoded as a number. -/
theorem exists_valueOf_toFloat {b : Binary64} (h : b ≠ .nan) :
    ∃ a, valueOf b.toFloat.toModel.unpack = some a := by
  cases b with
  | nan => exact absurd rfl h
  | infinite negative =>
    exact exists_valueOf_pack negative (by decide) (by decide) (fun _ => rfl)
  | finite negative m e => exact exists_valueOf_encode negative m e

/-- What is rounded to single precision stays a number. -/
theorem single_ne_nan {b : Binary64} (h : b ≠ .nan) : single b ≠ .nan := by
  cases b with
  | nan => exact absurd rfl h
  | infinite negative => nofun
  | finite negative m e =>
    rw [single]
    dsimp only
    split
    · nofun
    · split <;> split <;> nofun

end Orchestrion.Binary64

import Orchestrion.Proofs.Binary64.Faithful

set_option autoImplicit false

/-!
# Zeros, infinities, and what is no number

What the tests of a double say of its fields: the two zeros are all that equals zero,
an infinity has no fraction, and what is no number stays so in every product.
-/

namespace Orchestrion.Binary64

open Float.Model (UnpackedFloat Format)

/-! ## Zeros -/

/-- Only a zero has the value zero. -/
theorem exists_of_value_zero {b : Binary64} (h : value b = some 0) :
    ∃ negative e, b = .finite negative 0 e := by
  cases b with
  | nan => cases h
  | infinite negative =>
    have hbound : (if negative then ⊥ else ⊤ : EReal) = 0 := Option.some.inj h
    cases negative
    case false => exact absurd hbound EReal.top_ne_zero
    case true => exact absurd hbound EReal.bot_ne_zero
  | finite negative m e =>
    have hzero : (signed negative m : ℝ) * 2 ^ e = 0 := by
      exact_mod_cast Option.some.inj h
    have hm : signed negative m = 0 := by
      have hpow : (2 : ℝ) ^ e ≠ 0 := by positivity
      exact_mod_cast (mul_eq_zero.mp hzero).resolve_right hpow
    have : m = 0 := by
      cases negative <;> simpa [signed] using hm
    exact ⟨negative, e, by rw [this]⟩

/-- A double that decodes to a zero has no bits but its sign. -/
theorem toBits_of_ofFloat_zero {x : Float} {negative : Bool} {e : Int}
    (h : ofFloat x = .finite negative 0 e) : x.toBits = 0 ∨ x.toBits = 0x8000000000000000 := by
  rw [ofFloat] at h
  simp only [toNat_field, toNat_fraction] at h
  split at h
  · split at h <;> cases h
  · split at h
    case isTrue hfield =>
      have hfraction : x.toBits.toNat % 2 ^ 52 = 0 := by
        injection h
      have hlt := x.toBits.toNat_lt
      have hbits : x.toBits.toNat = 0 ∨ x.toBits.toNat = 2 ^ 63 := by omega
      exact hbits.imp (fun hzero => UInt64.toNat_inj.mp hzero) fun hsign => UInt64.toNat_inj.mp hsign
    case isFalse =>
      have hleading : Nat.pow 2 52 + x.toBits.toNat % 2 ^ 52 = 0 := by
        injection h
      have hpos : 0 < Nat.pow 2 52 := by decide
      omega

/-- There are two doubles that decode to a zero. -/
theorem eq_zero_of_ofFloat {x : Float} {negative : Bool} {e : Int}
    (h : ofFloat x = .finite negative 0 e) : x = 0.0 ∨ x = -0.0 := by
  have hpositive : (0.0 : Float).toBits = 0 := by decide +kernel
  have hnegative : (-0.0 : Float).toBits = 0x8000000000000000 := by decide +kernel
  rcases toBits_of_ofFloat_zero h with hbits | hbits
  · exact .inl (Float.toBits_inj.mp (hbits.trans hpositive.symm))
  · exact .inr (Float.toBits_inj.mp (hbits.trans hnegative.symm))

/-- What equals zero is a zero of either sign. -/
theorem beq_zero_iff (x : Float) : (x == 0.0) = true ↔ x = 0.0 ∨ x = -0.0 := by
  constructor
  · intro h
    obtain ⟨a, b, ha, hb, rfl⟩ := (beq_iff x 0.0).mp h
    have hzero : value (ofFloat 0.0) = some 0 := Scalar.Faithful.value_zero (α := Float)
    rw [hzero] at hb
    cases hb
    obtain ⟨negative, e, hx⟩ := exists_of_value_zero ha
    exact eq_zero_of_ofFloat hx
  · rintro (rfl | rfl) <;> decide +kernel

/-! ## Infinities and what is no number -/

theorem isInf_iff (x : Float) : x.isInf = true ↔ ∃ negative, ofFloat x = .infinite negative := by
  refine ⟨fun h => ?_, fun ⟨_, h⟩ => isInf_of_ofFloat h⟩
  have hunpack : x.toModel.unpack.isInf = true := h
  rw [ofFloat_eq_ofUnpacked]
  cases hx : x.toModel.unpack with
  | infinity s => exact ⟨isNegative s, rfl⟩
  | notANumber => rw [hx] at hunpack; cases hunpack
  | zero s => rw [hx] at hunpack; cases hunpack
  | finite s m e hm => rw [hx] at hunpack; cases hunpack

theorem isNaN_iff (x : Float) : x.isNaN = true ↔ ofFloat x = .nan := by
  have hunpack : x.isNaN = x.toModel.unpack.isNaN := rfl
  rw [hunpack, ofFloat_eq_ofUnpacked]
  cases x.toModel.unpack with
  | infinity s => exact ⟨nofun, nofun⟩
  | notANumber => exact ⟨fun _ => rfl, fun _ => rfl⟩
  | zero s => exact ⟨nofun, nofun⟩
  | finite s m e hm => exact ⟨nofun, nofun⟩

/-- What is no number is no infinity. -/
theorem isInf_of_isNaN {x : Float} (h : x.isNaN = true) : x.isInf = false := by
  cases hx : x.isInf with
  | false => rfl
  | true =>
    obtain ⟨negative, hinf⟩ := (isInf_iff x).mp hx
    rw [(isNaN_iff x).mp h] at hinf
    cases hinf

theorem value_eq_none_iff (x : Float) : value (ofFloat x) = none ↔ x.isNaN = true := by
  rw [isNaN_iff]
  cases ofFloat x <;> simp [value]

theorem unpack_of_isNaN {x : Float} (h : x.isNaN = true) : x.toModel.unpack = .notANumber := by
  have hunpack : x.toModel.unpack.isNaN = true := h
  cases hx : x.toModel.unpack with
  | notANumber => rfl
  | infinity s => rw [hx] at hunpack; cases hunpack
  | zero s => rw [hx] at hunpack; cases hunpack
  | finite s m e hm => rw [hx] at hunpack; cases hunpack

/-- A product with what is no number is none. -/
theorem isNaN_mul {x : Float} (h : x.isNaN = true) (y : Float) : (x * y).isNaN = true := by
  have hproduct : (x * y).toModel.unpack =
      repacked (x.toModel.unpack.mul Format.binary64 y.toModel.unpack) := rfl
  show (x * y).toModel.unpack.isNaN = true
  rw [hproduct, unpack_of_isNaN h, UnpackedFloat.mul, repacked_notANumber]
  rfl

theorem isNaN_div {x : Float} (h : x.isNaN = true) (y : Float) : (x / y).isNaN = true := by
  have hquotient : (x / y).toModel.unpack =
      repacked (x.toModel.unpack.div Format.binary64 y.toModel.unpack) := rfl
  show (x / y).toModel.unpack.isNaN = true
  rw [hquotient, unpack_of_isNaN h, UnpackedFloat.div, repacked_notANumber]
  rfl

end Orchestrion.Binary64

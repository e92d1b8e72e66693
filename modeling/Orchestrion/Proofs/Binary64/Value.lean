import Orchestrion.Proofs.Binary64.Unpacked

set_option autoImplicit false

/-!
# The values of doubles

An unpacked number has a value on the extended real line, unless it is no number.  What
has been taken apart from a bit pattern is in canonical form: its mantissa has all of
its 53 digits, or the exponent is the least one.  Of two magnitudes in this form the
one with the greater exponent is the greater one, so comparing exponents and mantissas
compares values.
-/

namespace Orchestrion.Binary64

open Float.Model (UnpackedFloat Format)
open Float.Model.UnpackedFloat

/-- A number with a sign. -/
noncomputable def withSign : Sign → EReal → EReal
  | .positive, a => a
  | .negative, a => -a

/-- The value of an unpacked number. -/
noncomputable def valueOf : UnpackedFloat → Option EReal
  | .notANumber => none
  | .infinity s => some (withSign s ⊤)
  | .zero _ => some 0
  | .finite s m e _ => some (withSign s ↑((m : ℝ) * 2 ^ e))

/-- The value of a decoded double. -/
noncomputable def value : Binary64 → Option EReal
  | .nan => none
  | .infinite negative => some (if negative then ⊥ else ⊤)
  | .finite negative m e => some ((signed negative m : ℝ) * 2 ^ e : ℝ)

/-- A magnitude among the doubles: from `2 ^ 1024` on it is the infinity. -/
noncomputable def clipped (x : ℝ) : EReal := if x < 2 ^ 1024 then ↑x else ⊤

/-- A mantissa and an exponent as rounding leaves them. -/
structure IsNormal (m : Nat) (e : Int) : Prop where
  lt : m < 2 ^ 53
  low : -1074 ≤ e
  /-- digits are missing only where the exponent is the least one -/
  full : 2 ^ 52 ≤ m ∨ e = -1074

/-- Unpacked numbers that doubles hold. -/
def IsCanonical : UnpackedFloat → Prop
  | .finite _ m e _ => IsNormal m e ∧ e ≤ 971
  | _ => True

/-! ## What has been unpacked -/

theorem value_positive (m : Nat) (e : Int) :
    value (.finite false m e) = some ((m : ℝ) * 2 ^ e : ℝ) := rfl

theorem value_ofFloat (x : Float) : value (ofFloat x) = valueOf x.toModel.unpack := by
  rw [ofFloat_eq_ofUnpacked]
  cases x.toModel.unpack with
  | notANumber => rfl
  | infinity s => cases s <;> rfl
  | zero s => cases s <;> simp [ofUnpacked, value, valueOf, signed]
  | finite s m e hm =>
    cases s <;> simp [ofUnpacked, value, valueOf, signed, isNegative, withSign]

theorem exponentBias_binary64 : Format.binary64.exponentBias = 1023 := rfl

theorem isCanonical_unpack (bits : BitVec Format.binary64.numBits) :
    IsCanonical (unpack Format.binary64 bits) := by
  have hmantissa : (@unpackMantissa Format.binary64 bits).toNat < 2 ^ 52 := BitVec.isLt _
  have hexponent : (@unpackExponent Format.binary64 bits).toNat < 2 ^ 11 := BitVec.isLt _
  unfold unpack
  dsimp only
  split
  case isTrue => split <;> trivial
  case isFalse htop =>
    have htop : (@unpackExponent Format.binary64 bits).toNat ≠ 2047 :=
      fun h => htop (BitVec.eq_of_toNat_eq h)
    split
    case isTrue hzero =>
      split
      case isTrue => trivial
      case isFalse =>
        rw [hzero]
        exact ⟨⟨by omega, by decide, .inr rfl⟩, by decide⟩
    case isFalse hzero =>
      have hzero : (@unpackExponent Format.binary64 bits).toNat ≠ 0 :=
        fun h => hzero (BitVec.eq_of_toNat_eq h)
      have hdigits : (1#1 ++ @unpackMantissa Format.binary64 bits).toNat =
          2 ^ 52 + (@unpackMantissa Format.binary64 bits).toNat := by
        rw [BitVec.toNat_append, ← Nat.shiftLeft_add_eq_or_of_lt (BitVec.isLt _)]
        rfl
      simp only [IsCanonical, hdigits, exponentBias_binary64]
      exact ⟨⟨by omega, by omega, .inl (by omega)⟩, by omega⟩

/-! ## Order -/

/-- Magnitudes are ordered by their exponents first. -/
theorem lt_of_exponent_lt {m m' : Nat} {e e' : Int} (hm : m < 2 ^ 53) (hfull : 2 ^ 52 ≤ m')
    (hlt : e < e') : (m : ℝ) * 2 ^ e < m' * 2 ^ e' := by
  calc (m : ℝ) * 2 ^ e < 2 ^ 53 * 2 ^ e := by
        have hm' : (m : ℝ) < 2 ^ 53 := by exact_mod_cast hm
        exact mul_lt_mul_of_pos_right hm' (by positivity)
    _ = 2 ^ 52 * 2 ^ (e + 1) := by
        rw [zpow_add_one₀ two_ne_zero]
        ring
    _ ≤ 2 ^ 52 * 2 ^ e' := by
        have hpow : (2 : ℝ) ^ (e + 1) ≤ 2 ^ e' := zpow_le_zpow_right₀ one_le_two (by omega)
        exact mul_le_mul_of_nonneg_left hpow (by positivity)
    _ ≤ m' * 2 ^ e' := by
        have hm' : (2 : ℝ) ^ 52 ≤ m' := by exact_mod_cast hfull
        exact mul_le_mul_of_nonneg_right hm' (by positivity)

open Ordering (Compares)

theorem compares_magnitudes {m m' : Nat} {e e' : Int} (h : IsNormal m e) (h' : IsNormal m' e') :
    ((compare e e').then (compare m m')).Compares ((m : ℝ) * 2 ^ e) (m' * 2 ^ e') := by
  have hlow := h.low
  have hlow' := h'.low
  rcases lt_trichotomy e e' with hlt | rfl | hgt
  · rw [compare_lt_iff_lt.mpr hlt]
    exact lt_of_exponent_lt h.lt (h'.full.resolve_right (by omega)) hlt
  · rw [compare_eq_iff_eq.mpr rfl]
    show (compare m m').Compares _ _
    have hmono : StrictMono fun k : Nat => (k : ℝ) * 2 ^ e :=
      Nat.strictMono_cast.mul_const (by positivity)
    rw [← cmp_eq_compare, ← hmono.cmp_map_eq]
    exact cmp_compares _ _
  · rw [compare_gt_iff_gt.mpr hgt]
    exact lt_of_exponent_lt h'.lt (h.full.resolve_right (by omega)) hgt

theorem compares_neg {o : Ordering} {a b : EReal} (h : o.Compares a b) :
    o.swap.Compares (-a) (-b) := by
  cases o with
  | lt => exact EReal.neg_lt_neg_iff.mpr h
  | eq => exact congrArg Neg.neg h
  | gt => exact EReal.neg_lt_neg_iff.mpr h

theorem compares_coe {o : Ordering} {a b : ℝ} (h : o.Compares a b) :
    o.Compares (a : EReal) (b : EReal) := by
  cases o with
  | lt => exact EReal.coe_lt_coe_iff.mpr h
  | eq => exact congrArg Real.toEReal h
  | gt => exact EReal.coe_lt_coe_iff.mpr h

/-! ### Signs -/

theorem magnitude_pos {m : Nat} (e : Int) (h : 0 < m) : (0 : EReal) < ↑((m : ℝ) * 2 ^ e) := by
  have hm : (0 : ℝ) < m := by exact_mod_cast h
  exact_mod_cast mul_pos hm (by positivity : (0 : ℝ) < 2 ^ e)

theorem withSign_coe (s : Sign) (x : ℝ) : ∃ y : ℝ, withSign s ↑x = ↑y := by
  cases s
  case negative => exact ⟨-x, rfl⟩
  case positive => exact ⟨x, rfl⟩

theorem bot_lt_withSign (s : Sign) (x : ℝ) : ⊥ < withSign s ↑x := by
  obtain ⟨y, hy⟩ := withSign_coe s x
  rw [hy]
  exact EReal.bot_lt_coe y

theorem withSign_lt_top (s : Sign) (x : ℝ) : withSign s ↑x < ⊤ := by
  obtain ⟨y, hy⟩ := withSign_coe s x
  rw [hy]
  exact EReal.coe_lt_top y

/-- Comparing unpacked numbers compares their values. -/
theorem compares_values {u v : UnpackedFloat} {a b : EReal} (hu : IsCanonical u)
    (hv : IsCanonical v) (ha : valueOf u = some a) (hb : valueOf v = some b) :
    ∃ o, u.compare v = some o ∧ o.Compares a b := by
  cases u <;> cases v <;> cases ha <;> cases hb
  case infinity.infinity s s' =>
    cases s <;> cases s' <;> refine ⟨_, rfl, ?_⟩
    case negative.negative => exact rfl
    case negative.positive => exact bot_lt_top
    case positive.negative => exact bot_lt_top
    case positive.positive => exact rfl
  case infinity.zero s s' =>
    cases s <;> refine ⟨_, rfl, ?_⟩
    case negative => exact EReal.bot_lt_zero
    case positive => exact EReal.zero_lt_top
  case infinity.finite s s' m e hm =>
    cases s <;> refine ⟨_, rfl, ?_⟩
    case negative => exact bot_lt_withSign _ _
    case positive => exact withSign_lt_top _ _
  case zero.infinity s s' =>
    cases s' <;> refine ⟨_, rfl, ?_⟩
    case negative => exact EReal.bot_lt_zero
    case positive => exact EReal.zero_lt_top
  case zero.zero => exact ⟨_, rfl, rfl⟩
  case zero.finite s s' m e hm =>
    have hpos := magnitude_pos e hm
    cases s' <;> refine ⟨_, rfl, ?_⟩
    case negative => exact EReal.neg_lt_zero.mpr hpos
    case positive => exact hpos
  case finite.infinity s m e hm s' =>
    cases s' <;> cases s <;> refine ⟨_, rfl, ?_⟩
    case negative.negative => exact bot_lt_withSign .negative _
    case negative.positive => exact bot_lt_withSign .positive _
    case positive.negative => exact withSign_lt_top .negative _
    case positive.positive => exact withSign_lt_top .positive _
  case finite.zero s m e hm s' =>
    have hpos := magnitude_pos e hm
    cases s <;> refine ⟨_, rfl, ?_⟩
    case negative => exact EReal.neg_lt_zero.mpr hpos
    case positive => exact hpos
  case finite.finite s m e hm s' m' e' hm' =>
    have hpos := magnitude_pos e hm
    have hpos' := magnitude_pos e' hm'
    have hmagnitudes := compares_coe (compares_magnitudes hu.1 hv.1)
    cases s <;> cases s' <;> refine ⟨_, rfl, ?_⟩
    case negative.negative => exact compares_neg hmagnitudes
    case negative.positive => exact (EReal.neg_lt_zero.mpr hpos).trans hpos'
    case positive.negative => exact (EReal.neg_lt_zero.mpr hpos').trans hpos
    case positive.positive => exact hmagnitudes

theorem isSome_of_compare {u v : UnpackedFloat} {o : Ordering} (h : u.compare v = some o) :
    (∃ a, valueOf u = some a) ∧ ∃ b, valueOf v = some b := by
  cases u <;> cases v <;> first | exact ⟨⟨_, rfl⟩, ⟨_, rfl⟩⟩ | cases h

/-! ## Negation and magnitude -/

theorem withSign_neg (s : Sign) (a : EReal) : withSign (-s) a = -withSign s a := by
  cases s
  case negative => exact (neg_neg a).symm
  case positive => rfl

theorem withSign_sup_neg (s : Sign) {a : EReal} (h : 0 ≤ a) : withSign s a ⊔ -withSign s a = a := by
  have hneg : -a ≤ a := (EReal.neg_le_zero.mpr h).trans h
  cases s
  case negative =>
    show -a ⊔ - -a = a
    rw [neg_neg, sup_eq_right.mpr hneg]
  case positive => exact sup_eq_left.mpr hneg

theorem valueOf_neg (u : UnpackedFloat) : valueOf u.neg = (valueOf u).map fun a => -a := by
  cases u with
  | notANumber => rfl
  | infinity s => exact congrArg some (withSign_neg s ⊤)
  | zero s => exact congrArg some neg_zero.symm
  | finite s m e hm => exact congrArg some (withSign_neg s _)

theorem valueOf_abs (u : UnpackedFloat) : valueOf u.abs = (valueOf u).map fun a => a ⊔ -a := by
  cases u with
  | notANumber => rfl
  | infinity s => exact congrArg some (withSign_sup_neg s le_top).symm
  | zero s => simp [valueOf, UnpackedFloat.abs]
  | finite s m e hm => exact congrArg some (withSign_sup_neg s (magnitude_pos e hm).le).symm

theorem isCanonical_neg {u : UnpackedFloat} (h : IsCanonical u) : IsCanonical u.neg := by
  cases u <;> exact h

theorem isCanonical_abs {u : UnpackedFloat} (h : IsCanonical u) : IsCanonical u.abs := by
  cases u <;> exact h

end Orchestrion.Binary64

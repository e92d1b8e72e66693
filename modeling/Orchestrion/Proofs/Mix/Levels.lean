import Orchestrion.Proofs.Mix.Pcm
import Orchestrion.Proofs.Binary64.Quotient

set_option autoImplicit false

/-!
# The levels of a mix

Whatever the slots and the peak are, a mix becomes as many samples, and none of them is
out of range.  By a finite peak above zero a slot has a level, which is cut off at the
ends of the range before its places are dropped; every one of these steps keeps the order
and does not depend on the sign, so the samples follow their slots in both respects.  By
any other peak, and where a slot is no number, there is silence.
-/

namespace Orchestrion

namespace Pcm

open Scalar (extended towardZero)
open Scalar.Faithful
open Scalar.Levels

/-! ## The range of the samples -/

/-- The level of the greatest sample. -/
noncomputable def limit : EReal := ((32767 : ℝ) : EReal)

/-- A level that is cut off where the samples end. -/
noncomputable def limited (a : EReal) : ℝ := ((a ⊔ -limit) ⊓ limit).toReal

theorem limit_pos : 0 < limit := by
  rw [limit]
  exact_mod_cast (by norm_num : (0 : ℝ) < 32767)

theorem neg_limit_le : -limit ≤ limit :=
  (EReal.neg_le_zero.mpr limit_pos.le).trans limit_pos.le

theorem coe_limited (a : EReal) : (limited a : EReal) = (a ⊔ -limit) ⊓ limit :=
  EReal.coe_toReal (ne_top_of_le_ne_top (EReal.coe_ne_top 32767) inf_le_right)
    (ne_bot_of_le_ne_bot (EReal.coe_ne_bot (-32767)) (le_inf le_sup_right neg_limit_le))

theorem limited_mono : Monotone limited := by
  intro a b hab
  rw [← EReal.coe_le_coe_iff, coe_limited, coe_limited]
  exact inf_le_inf_right _ (sup_le_sup_right hab _)

theorem limited_neg (a : EReal) : limited (-a) = -limited a := by
  rw [← EReal.coe_eq_coe_iff, EReal.coe_neg, coe_limited, coe_limited]
  calc (-a ⊔ -limit) ⊓ limit = (-a ⊓ limit) ⊔ -limit := by
        rw [sup_inf_right, sup_eq_left.mpr neg_limit_le]
    _ = -(a ⊔ -limit) ⊔ -limit := by rw [← EReal.min_neg_neg, neg_neg]
    _ = -((a ⊔ -limit) ⊓ limit) := EReal.max_neg_neg _ _

theorem limited_zero : limited 0 = 0 := by
  have hneg := limited_neg 0
  rw [neg_zero] at hneg
  linarith

theorem limited_of_le {a : EReal} (h : limit ≤ a) : limited a = 32767 := by
  rw [← EReal.coe_eq_coe_iff, coe_limited]
  exact inf_eq_right.mpr (h.trans le_sup_left)

theorem abs_limited_le (a : EReal) : |limited a| ≤ 32767 := by
  rw [abs_le, ← EReal.coe_le_coe_iff, ← EReal.coe_le_coe_iff, coe_limited]
  exact ⟨le_inf le_sup_right neg_limit_le, inf_le_right⟩

/-! ## The sample of a level -/

section

variable {α : Type} [Scalar α] [Scalar.Faithful α] {slot peak : α}

theorem sampleOf_of_value {a : EReal} (h : value (slot / peak * fullScale) = some a) :
    sampleOf peak slot = towardZero (limited a) := by
  have hclamp : value (scaled peak slot) = some ↑(limited a) := by
    rw [scaled, isNaN_of_value h, coe_limited]
    exact value_min (value_max h value_neg_fullScale) value_fullScale
  rw [sampleOf, truncate_eq _ _ hclamp]

theorem sampleOf_of_none (h : value (slot / peak * fullScale) = none) : sampleOf peak slot = 0 := by
  have hscaled : scaled peak slot = 0.0 := by
    rw [scaled, isNaN_iff.mpr h]
    rfl
  rw [sampleOf, hscaled, truncate_eq _ 0 value_zero, Scalar.towardZero_zero]

/-- The sample that a mix has for a slot, whatever the peak. -/
def quantized (peak slot : α) : Int := if Scalar.lt 0.0 peak then sampleOf peak slot else 0

omit [Scalar.Faithful α] in
theorem ofSlots_eq_map (slots : Array α) (peak : α) :
    ofSlots slots peak = slots.map (quantized peak) := by
  have hquantized : quantized peak =
      fun slot => if Scalar.lt 0.0 peak then sampleOf peak slot else 0 := rfl
  rw [ofSlots, hquantized]
  split
  · rfl
  · exact (Array.map_const ..).symm

theorem quantized_of_pos {q : EReal} (hq : value peak = some q) (hpos : 0 < q) :
    quantized peak slot = sampleOf peak slot :=
  if_pos ((lt_of_values value_zero hq).mpr hpos)

end

/-! ## The level of a slot -/

variable {α : Type} [Scalar α] [Scalar.Faithful α] [Scalar.Levels α] {slot peak : α} {p : ℝ}

/-- What a number is rounded to. -/
noncomputable abbrev rounded (α : Type) [Scalar α] [Scalar.Faithful α] [Scalar.Levels α] :
    EReal → EReal :=
  extended (Scalar.Rounded.round α)

theorem rounded_mono : Monotone (rounded α) :=
  Scalar.extended_mono Scalar.Rounded.round_mono

theorem rounded_neg (a : EReal) : rounded α (-a) = -rounded α a :=
  Scalar.extended_neg round_neg a

/-- A number is rounded to itself. -/
theorem rounded_of_value {x : α} {r : ℝ} (hx : value x = some ↑r) : rounded α ↑r = ↑r :=
  (Scalar.extended_coe _ r).trans (Scalar.Rounded.round_value x r hx)

/-- The level of a slot by a finite peak. -/
noncomputable def levelOf (α : Type) [Scalar α] [Scalar.Faithful α] [Scalar.Levels α] (p : ℝ)
    (a : EReal) : EReal :=
  rounded α (rounded α (a / p) * limit)

theorem levelOf_mono (hpos : 0 < p) : Monotone (levelOf α p) := by
  intro a b hab
  have hquotient : a / p ≤ b / p :=
    EReal.div_le_div_right_of_nonneg (by exact_mod_cast hpos.le) hab
  exact rounded_mono (mul_le_mul_of_nonneg_right (rounded_mono hquotient) limit_pos.le)

theorem levelOf_neg (a : EReal) : levelOf α p (-a) = -levelOf α p a := by
  have hquotient : -a / p = -(a / p) := EReal.neg_mul a _
  rw [levelOf, levelOf, hquotient, rounded_neg, EReal.neg_mul, rounded_neg]

/-- A slot that is no smaller than the peak is at full scale. -/
theorem limit_le_levelOf {a : EReal} (hpos : 0 < p) (h : ↑p ≤ a) : limit ≤ levelOf α p a := by
  have hone : rounded α (p / p) = 1 := by
    rw [EReal.div_self (EReal.coe_ne_bot p) (EReal.coe_ne_top p) (by exact_mod_cast hpos.ne')]
    exact rounded_of_value (r := 1) value_one
  have hfull : levelOf α p p = limit := by
    rw [levelOf, hone, one_mul]
    exact rounded_of_value value_fullScale
  exact hfull.symm.trans_le (levelOf_mono hpos h)

/-! ## The sample of a slot -/

theorem sampleOf_of_finite {a : EReal} (hs : value slot = some a) (hp : value peak = some ↑p)
    (hpos : 0 < p) : sampleOf peak slot = towardZero (limited (levelOf α p a)) := by
  have hquotient := value_div_of_pos slot peak a p hs hp hpos
  exact sampleOf_of_value
    (value_mul_of_pos _ _ _ 32767 hquotient value_fullScale (by norm_num))

theorem sampleOf_of_isNaN (hs : value slot = none) : sampleOf peak slot = 0 :=
  sampleOf_of_none (value_none_mul _ _ (value_none_div slot peak hs))

/-- By an infinite peak there is silence. -/
theorem sampleOf_of_top (hp : value peak = some ⊤) : sampleOf peak slot = 0 := by
  rcases value_div_top slot peak hp with hnone | hzero
  · exact sampleOf_of_none (value_none_mul _ _ hnone)
  · have hproduct := value_mul_of_pos _ _ _ 32767 hzero value_fullScale (by norm_num)
    have hround : rounded α 0 = 0 := rounded_of_value (r := 0) value_zero
    have hlevel : extended (Scalar.Rounded.round α) (0 * ((32767 : ℝ) : EReal)) = 0 := by
      rw [zero_mul]
      exact hround
    rw [hlevel] at hproduct
    rw [sampleOf_of_value hproduct, limited_zero, Scalar.towardZero_zero]

/-! ## Any peak -/

theorem quantized_of_isNaN (hs : value slot = none) : quantized peak slot = 0 := by
  rw [quantized]
  split
  · exact sampleOf_of_isNaN hs
  · rfl

theorem quantized_of_finite {a : EReal} (hs : value slot = some a) (hp : value peak = some ↑p)
    (hpos : 0 < p) : quantized peak slot = towardZero (limited (levelOf α p a)) := by
  rw [quantized_of_pos hp (by exact_mod_cast hpos), sampleOf_of_finite hs hp hpos]

/-- By a peak there is silence, or it is finite and above zero. -/
theorem peak_cases (peak : α) : (∀ slot, quantized peak slot = 0) ∨
    ∃ p : ℝ, value peak = some ↑p ∧ 0 < p := by
  by_cases hlt : Scalar.lt 0.0 peak = true
  · obtain ⟨z, p, hzero, hp, hpos⟩ := (lt_iff _ _).mp hlt
    obtain rfl : z = 0 := Option.some.inj (hzero.symm.trans value_zero)
    induction p with
    | bot => exact absurd hpos not_lt_bot
    | top => exact .inl fun slot => (quantized_of_pos hp hpos).trans (sampleOf_of_top hp)
    | coe p => exact .inr ⟨p, hp, by exact_mod_cast hpos⟩
  · exact .inl fun slot => if_neg hlt

theorem quantized_neg (peak slot : α) : quantized peak (-slot) = -quantized peak slot := by
  have hneg := value_neg slot
  cases hs : value slot with
  | none =>
    rw [hs] at hneg
    rw [quantized_of_isNaN hs, quantized_of_isNaN hneg, neg_zero]
  | some a =>
    rw [hs] at hneg
    rcases peak_cases peak with hsilent | ⟨p, hp, hpos⟩
    · rw [hsilent, hsilent, neg_zero]
    · rw [quantized_of_finite hs hp hpos, quantized_of_finite hneg hp hpos, levelOf_neg,
        limited_neg, Scalar.towardZero_neg]

theorem quantized_mono {x y : α} (peak : α) (hxy : Scalar.le x y = true) :
    quantized peak x ≤ quantized peak y := by
  obtain ⟨a, b, hx, hy, hab⟩ := (le_iff x y).mp hxy
  rcases peak_cases peak with hsilent | ⟨p, hp, hpos⟩
  · rw [hsilent, hsilent]
  · rw [quantized_of_finite hx hp hpos, quantized_of_finite hy hp hpos]
    exact Scalar.towardZero_mono (limited_mono (levelOf_mono hpos hab))

theorem abs_quantized_le (peak slot : α) : |quantized peak slot| ≤ maxSample := by
  have hzero : |(0 : Int)| ≤ maxSample := by decide
  cases hs : value slot with
  | none => rwa [quantized_of_isNaN hs]
  | some a =>
    rcases peak_cases peak with hsilent | ⟨p, hp, hpos⟩
    · rwa [hsilent]
    · rw [quantized_of_finite hs hp hpos]
      exact Scalar.abs_towardZero_le (by exact_mod_cast abs_limited_le _)

theorem quantized_of_le {a : EReal} (hs : value slot = some a) (hp : value peak = some ↑p)
    (hpos : 0 < p) (h : ↑p ≤ a) : quantized peak slot = maxSample := by
  rw [quantized_of_finite hs hp hpos, limited_of_le (limit_le_levelOf hpos h)]
  exact_mod_cast Scalar.towardZero_intCast 32767

/-- What the sample of a slot is, whatever they are. -/
structure IsQuantized (peak slot : α) (n : Int) : Prop where
  /-- the least integer of 16 bits is no sample -/
  range : -maxSample ≤ n ∧ n ≤ maxSample
  /-- only a peak above zero is one -/
  silent : Scalar.lt 0.0 peak = false → n = 0
  unbounded : value peak = some ⊤ → n = 0
  notNumber : Scalar.isNaN slot = true → n = 0
  truncated (p : ℝ) (a : EReal) : 0 < p → value peak = some ↑p → value slot = some a →
    n = towardZero (limited (levelOf α p a))
  /-- slots that are no smaller than the peak are at full scale -/
  full (p : ℝ) (a : EReal) : 0 < p → value peak = some ↑p → value slot = some a →
    (↑p ≤ a → n = maxSample) ∧ (a ≤ -↑p → n = -maxSample)

theorem isQuantized_quantized (peak slot : α) : IsQuantized peak slot (quantized peak slot) := by
  constructor
  case range => exact abs_le.mp (abs_quantized_le peak slot)
  case silent => exact fun hlt => if_neg (Bool.eq_false_iff.mp hlt)
  case unbounded =>
    exact fun hp => (quantized_of_pos hp EReal.zero_lt_top).trans (sampleOf_of_top hp)
  case notNumber => exact fun hs => quantized_of_isNaN (isNaN_iff.mp hs)
  case truncated => exact fun p a hpos hp hs => quantized_of_finite hs hp hpos
  case full =>
    intro p a hpos hp hs
    refine ⟨quantized_of_le hs hp hpos, fun h => ?_⟩
    have hneg : value (-slot) = some (-a) := by rw [value_neg, hs, Option.map_some]
    have hfull := quantized_of_le hneg hp hpos (EReal.le_neg_of_le_neg h)
    rw [quantized_neg] at hfull
    omega

/-! ## The samples of a mix -/

/-- What the samples of a mix are, whatever its slots and its peak. -/
structure IsScaled (slots : Array α) (peak : α) (samples : Array Int) : Prop where
  size : samples.size = slots.size
  sample (i : Nat) (slot : α) : slots[i]? = some slot →
    ∃ n, samples[i]? = some n ∧ IsQuantized peak slot n
  /-- the samples of the slots with the other signs are these with the other signs -/
  odd : ofSlots (slots.map fun slot => -slot) peak = samples.map fun n => -n
  /-- by one peak, no greater slot has a smaller sample, in this mix or another one -/
  ordered (slots' : Array α) (i j : Nat) (x y : α) (m n : Int) :
    slots[i]? = some x → slots'[j]? = some y → Scalar.le x y = true →
    samples[i]? = some m → (ofSlots slots' peak)[j]? = some n → m ≤ n

/-- A mix becomes samples, whatever its slots and its peak. -/
theorem ofSlots_scaled (slots : Array α) (peak : α) :
    IsScaled slots peak (ofSlots slots peak) := by
  have hget {slots : Array α} {i : Nat} {slot : α} (h : slots[i]? = some slot) :
      (ofSlots slots peak)[i]? = some (quantized peak slot) := by
    rw [ofSlots_eq_map, Array.getElem?_map, h, Option.map_some]
  constructor
  case size => rw [ofSlots_eq_map, Array.size_map]
  case sample => exact fun i slot h => ⟨_, hget h, isQuantized_quantized peak slot⟩
  case odd =>
    rw [ofSlots_eq_map, ofSlots_eq_map, Array.map_map, Array.map_map]
    exact congrArg (slots.map ·) (funext (quantized_neg peak))
  case ordered =>
    intro slots' i j x y m n hx hy hxy hm hn
    rw [hget hx] at hm
    rw [hget hy] at hn
    cases hm
    cases hn
    exact quantized_mono peak hxy

/-- An infinity is at full scale, and what is no number is silent. -/
theorem ofSlots_scaled_special :
    ofSlots #[0.0 / 0.0, 1.0 / 0.0, -0.5, 0.1] (0.5 : Float) = #[0, 32767, -32767, 6553] ∧
      IsScaled #[0.0 / 0.0, 1.0 / 0.0, -0.5, 0.1] (0.5 : Float) #[0, 32767, -32767, 6553] := by
  have hsamples : ofSlots #[0.0 / 0.0, 1.0 / 0.0, -0.5, 0.1] (0.5 : Float) =
      #[0, 32767, -32767, 6553] := by decide +kernel
  have hscaled := ofSlots_scaled #[0.0 / 0.0, 1.0 / 0.0, -0.5, 0.1] (0.5 : Float)
  rw [hsamples] at hscaled
  exact ⟨hsamples, hscaled⟩

end Pcm

end Orchestrion

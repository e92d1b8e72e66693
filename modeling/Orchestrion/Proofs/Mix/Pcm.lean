import Orchestrion.Mix.Pcm
import Orchestrion.Proofs.Scalar.Faithful

set_option autoImplicit false

/-!
# The scale of a mix

A slot that is divided by a peak which is no smaller lies between -1 and 1, and so does
its rounded quotient, as both are numbers.  Scaled to 16 bits it stays in the range of
the samples, so that nothing has to be cut off; a slot that is as great as the peak
becomes the greatest sample, with its sign.
-/

namespace Orchestrion

namespace Pcm

open Scalar.Faithful

variable {α : Type} [Scalar α] [Scalar.Faithful α] {slot peak : α} {s p : ℝ}

theorem value_neg_one : value (-1.0 : α) = some ((-1 : ℝ) : EReal) := by
  rw [value_neg, value_one]
  rfl

theorem value_fullScale : value (fullScale : α) = some ((32767 : ℝ) : EReal) := by
  rw [fullScale, value_maxSample, Nat.cast_ofNat]

theorem value_neg_fullScale : value (-fullScale : α) = some ((-32767 : ℝ) : EReal) := by
  rw [value_neg, value_fullScale]
  rfl

/-- A slot by a peak that is no smaller. -/
theorem exists_value_div (hs : value slot = some ↑s) (hp : value peak = some ↑p) (hpos : 0 < p)
    (hle : |s| ≤ p) :
    ∃ c : ℝ, value (slot / peak) = some ↑c ∧ |c| ≤ 1 ∧ (s = p → c = 1) ∧ (s = -p → c = -1) := by
  obtain ⟨c, hc, hbetween⟩ := value_div slot peak s p hs hp hpos.ne'
  obtain ⟨hlow, hhigh⟩ := abs_le.mp hle
  have hone := hbetween 1.0 1 value_one
  have hnegOne := hbetween (-1.0) _ value_neg_one
  have hquotient : s / p ≤ 1 := (div_le_one hpos).mpr hhigh
  have hquotient' : -1 ≤ s / p := (le_div_iff₀ hpos).mpr (by linarith)
  obtain ⟨r, rfl, hmin, hmax⟩ := exists_coe_of_between
    (hnegOne.2 (by exact_mod_cast hquotient')) (hone.1 (by exact_mod_cast hquotient))
  refine ⟨r, hc, abs_le.mpr ⟨hmin, hmax⟩, ?_, ?_⟩
  · rintro rfl
    have hexact : s / s = 1 := div_self hpos.ne'
    have hge := hone.2 (by rw [hexact]; rfl)
    exact le_antisymm hmax (by exact_mod_cast hge)
  · rintro rfl
    have hexact : -p / p = -1 := by rw [neg_div, div_self hpos.ne']
    have hle' := hnegOne.1 (by rw [hexact])
    exact le_antisymm (by exact_mod_cast hle') hmin

/-- A quotient at full scale. -/
theorem exists_value_mul {x : α} {c : ℝ} (hc : value x = some ↑c) (hle : |c| ≤ 1) :
    ∃ d : ℝ, value (x * fullScale) = some ↑d ∧ |d| ≤ 32767 ∧ (c = 1 → d = 32767) ∧
      (c = -1 → d = -32767) := by
  obtain ⟨d, hd, hbetween⟩ := value_mul x fullScale c 32767 hc value_fullScale
  obtain ⟨hlow, hhigh⟩ := abs_le.mp hle
  have hfull := hbetween fullScale _ value_fullScale
  have hnegFull := hbetween (-fullScale) _ value_neg_fullScale
  have hproduct : c * 32767 ≤ 32767 := by linarith
  have hproduct' : -32767 ≤ c * 32767 := by linarith
  obtain ⟨r, rfl, hmin, hmax⟩ := exists_coe_of_between
    (hnegFull.2 (by exact_mod_cast hproduct')) (hfull.1 (by exact_mod_cast hproduct))
  refine ⟨r, hd, abs_le.mpr ⟨hmin, hmax⟩, ?_, ?_⟩
  · rintro rfl
    have hge := hfull.2 (by rw [one_mul])
    exact le_antisymm hmax (by exact_mod_cast hge)
  · rintro rfl
    have hle' := hnegFull.1 (by rw [neg_one_mul])
    exact le_antisymm (by exact_mod_cast hle') hmin

/-- What lies in the range of the samples is not cut off. -/
theorem scaled_eq {d : ℝ} (hd : value (slot / peak * fullScale) = some ↑d) (hle : |d| ≤ 32767) :
    scaled peak slot = slot / peak * fullScale := by
  obtain ⟨hlow, hhigh⟩ := abs_le.mp hle
  have hmax : Scalar.max (slot / peak * fullScale) (-fullScale) = slot / peak * fullScale := by
    rw [Scalar.max, if_neg]
    rw [lt_of_values hd value_neg_fullScale, not_lt]
    exact_mod_cast hlow
  have hmin : Scalar.min (slot / peak * fullScale) fullScale = slot / peak * fullScale := by
    rw [Scalar.min, if_neg]
    rw [lt_of_values value_fullScale hd, not_lt]
    exact_mod_cast hhigh
  rw [scaled, isNaN_of_value hd, Scalar.clamp, hmax, hmin]
  rfl

/-- What the sample of a slot is, when no slot is greater than the peak. -/
structure IsSample (slot peak : α) (n : Int) : Prop where
  /-- nothing is cut off -/
  uncut : scaled peak slot = slot / peak * fullScale
  truncated : Scalar.truncate (slot / peak * fullScale) = .ok n
  range : -maxSample ≤ n ∧ n ≤ maxSample
  /-- the greatest slots become the greatest samples -/
  full : Scalar.eq (Scalar.abs slot) peak = true →
    n = if Scalar.lt slot 0.0 then -maxSample else maxSample

theorem isSample_sampleOf (hs : value slot = some ↑s) (hp : value peak = some ↑p) (hpos : 0 < p)
    (hle : |s| ≤ p) : IsSample slot peak (sampleOf peak slot) := by
  obtain ⟨c, hc, hcle, hone, hnegOne⟩ := exists_value_div hs hp hpos hle
  obtain ⟨d, hd, hdle, hfull, hnegFull⟩ := exists_value_mul hc hcle
  have hscaled := scaled_eq hd hdle
  have hsample : sampleOf peak slot = Scalar.towardZero d := by
    rw [sampleOf, hscaled, truncate_eq _ d hd]
  constructor
  case uncut => exact hscaled
  case truncated => rw [hsample, truncate_eq _ d hd]
  case range =>
    rw [hsample]
    exact abs_le.mp (Scalar.abs_towardZero_le (n := 32767) (by exact_mod_cast hdle))
  case full =>
    intro habs
    rw [eq_of_values (value_abs_coe hs) hp, EReal.coe_eq_coe_iff] at habs
    rw [hsample]
    by_cases hneg : s < 0
    · rw [if_pos ((lt_of_values hs value_zero).mpr (by exact_mod_cast hneg))]
      rw [abs_of_neg hneg] at habs
      rw [hnegFull (hnegOne (by linarith))]
      exact_mod_cast Scalar.towardZero_intCast (-32767)
    · rw [if_neg (mt (lt_of_values hs value_zero).mp (by exact_mod_cast hneg))]
      rw [abs_of_nonneg (not_lt.mp hneg)] at habs
      rw [hfull (hone habs)]
      exact_mod_cast Scalar.towardZero_intCast 32767

end Pcm

end Orchestrion

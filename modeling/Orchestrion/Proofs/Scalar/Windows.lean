import Orchestrion.Proofs.Binary64.Integers

set_option autoImplicit false

/-!
# Arithmetic of windows

The window of a phase is told by two products whose places are dropped, and a sample in it
by its distance from the first one.  What is needed of an arithmetic for this is little:
that it can count as far as its numbers go, and that products are rounded in some way that
keeps the order.
-/

namespace Orchestrion

namespace Scalar

/-- Arithmetic that can count up to the integers next to its numbers. -/
class Measures (α : Type) [Scalar α] : Prop where
  exists_ofInt (x : α) (last n : Int) (h : Scalar.truncate x = .ok last) (hn : 0 ≤ n)
    (hlast : n ≤ last) : ∃ y : α, Scalar.ofInt n = .ok y

/-- Arithmetic in which products are told from integers. -/
class Scales (α : Type) [Scalar α] extends Places α where
  eq_iff (x y : α) :
    Scalar.eq x y = true ↔ ∃ a b, value x = some a ∧ value y = some b ∧ a = b
  value_zero : value (0.0 : α) = some 0
  value_one : value (1.0 : α) = some 1
  /-- an infinity is in no finite product -/
  exists_of_value_mul (x y : α) (c : ℝ) (h : value (x * y) = some ↑c) :
    (∃ a : ℝ, value x = some ↑a) ∧ ∃ b : ℝ, value y = some ↑b
  /-- what is next to an integer is finite -/
  truncate_eq_ok_iff (x : α) (n : Int) :
    Scalar.truncate x = .ok n ↔ ∃ a : ℝ, value x = some ↑a ∧ n = towardZero a

namespace Scales

variable {α : Type} [Scalar α] [Scales α] {x d : α} {m : Int}

/-- What the integer next to a product is. -/
theorem exists_of_truncate_mul (h : Scalar.truncate (x * d) = .ok m) :
    ∃ a b c : ℝ, Places.value x = some ↑a ∧ Places.value d = some ↑b ∧
      Places.round α (a * b) = ↑c ∧ m = towardZero c := by
  obtain ⟨c, hc, rfl⟩ := (truncate_eq_ok_iff _ m).mp h
  obtain ⟨⟨a, ha⟩, b, hb⟩ := exists_of_value_mul x d c hc
  have hproduct := Places.value_mul x d a b ha hb
  rw [hc] at hproduct
  exact ⟨a, b, c, ha, hb, (Option.some.inj hproduct).symm, rfl⟩

/-- Numbers that are equal have equal products. -/
theorem truncate_mul_congr {y : α} {k : Int} (hxy : Scalar.eq x y = true)
    (hm : Scalar.truncate (x * d) = .ok m) (hk : Scalar.truncate (y * d) = .ok k) : m = k := by
  obtain ⟨a, b, c, ha, hb, hround, rfl⟩ := exists_of_truncate_mul hm
  obtain ⟨a', b', c', ha', hb', hround', rfl⟩ := exists_of_truncate_mul hk
  obtain ⟨v, v', hv, hv', rfl⟩ := (eq_iff x y).mp hxy
  have haa' : (a : EReal) = a' :=
    Option.some.inj ((ha.symm.trans hv).trans (hv'.symm.trans ha'))
  have hbb' : (b : EReal) = b' := Option.some.inj (hb.symm.trans hb')
  rw [EReal.coe_eq_coe_iff.mp haa', EReal.coe_eq_coe_iff.mp hbb', hround'] at hround
  rw [EReal.coe_eq_coe_iff.mp hround]

section

variable {n : Int} (hn : 0 ≤ n) (hd : Places.value d = some ↑(n : ℝ))

include hn hd

/-- A fraction that is not above zero leads nowhere in a whole duration. -/
theorem truncate_mul_nonpos (hzero : Places.round α 0 = 0) (hx : Scalar.le x 0.0 = true)
    (hm : Scalar.truncate (x * d) = .ok m) : m ≤ 0 := by
  obtain ⟨a, b, c, ha, hb, hround, rfl⟩ := exists_of_truncate_mul hm
  have hbn : (b : EReal) = ↑(n : ℝ) := Option.some.inj (hb.symm.trans hd)
  have hax : (a : EReal) ≤ 0 := (Places.le_of_values ha value_zero).mp hx
  have hproduct : a * b ≤ 0 := by
    rw [EReal.coe_eq_coe_iff.mp hbn]
    exact mul_nonpos_of_nonpos_of_nonneg (by exact_mod_cast hax) (by exact_mod_cast hn)
  have hc : (c : EReal) ≤ ((0 : ℝ) : EReal) := by
    rw [← hround, EReal.coe_zero, ← hzero]
    exact Places.round_mono hproduct
  have hle := towardZero_mono (EReal.coe_le_coe_iff.mp hc)
  rwa [← Int.cast_zero, towardZero_intCast] at hle

/-- A fraction that is not below one leads to the end of a whole duration. -/
theorem le_truncate_mul (hfixed : Places.round α n = ↑(n : ℝ)) (hx : Scalar.le 1.0 x = true)
    (hm : Scalar.truncate (x * d) = .ok m) : n ≤ m := by
  obtain ⟨a, b, c, ha, hb, hround, rfl⟩ := exists_of_truncate_mul hm
  have hbn : (b : EReal) = ↑(n : ℝ) := Option.some.inj (hb.symm.trans hd)
  have hax : 1 ≤ (a : EReal) := (Places.le_of_values value_one ha).mp hx
  have hproduct : (n : ℝ) ≤ a * b := by
    rw [EReal.coe_eq_coe_iff.mp hbn]
    exact le_mul_of_one_le_left (by exact_mod_cast hn) (by exact_mod_cast hax)
  have hc : ((n : ℝ) : EReal) ≤ c := by
    rw [← hround, ← hfixed]
    exact Places.round_mono hproduct
  have hle := towardZero_mono (EReal.coe_le_coe_iff.mp hc)
  rwa [towardZero_intCast] at hle

end

end Scales

/-! ## Real numbers -/

/-- Real numbers can count to wherever they are dropped, however products are rounded. -/
theorem Measures.rounding (ρ : ℝ → ℝ) : @Measures ℝ (Scalar.rounding ρ) :=
  letI := Scalar.rounding ρ
  ⟨fun _ _ n _ _ _ => ⟨n, rfl⟩⟩

theorem value_zero_real : some ((0.0 : ℝ) : EReal) = some 0 := by norm_num

theorem value_one_real : some ((1.0 : ℝ) : EReal) = some 1 := by norm_num

theorem eq_iff_real (x y : ℝ) : decide (x = y) = true ↔
    ∃ a b : EReal, some (x : EReal) = some a ∧ some (y : EReal) = some b ∧ a = b := by
  simp [eq_comm]

/-- Products may be rounded in any way that keeps the order. -/
noncomputable abbrev Scales.rounding {ρ : ℝ → ℝ} (hρ : Monotone ρ) :
    @Scales ℝ (Scalar.rounding ρ) :=
  letI := Scalar.rounding ρ
  { Places.rounding hρ with
    eq_iff := eq_iff_real
    value_zero := value_zero_real
    value_one := value_one_real
    exists_of_value_mul := fun x y _ _ => ⟨⟨x, rfl⟩, y, rfl⟩
    truncate_eq_ok_iff := fun x n => by
      have htruncate : Scalar.truncate x = .ok (towardZero x) := truncate_real x
      rw [htruncate]
      constructor
      · intro h
        cases h
        exact ⟨x, rfl, rfl⟩
      · rintro ⟨a, ha, rfl⟩
        rw [eq_of_some_coe ha] }

end Scalar

/-! ## Doubles -/

open Binary64 in
/-- Doubles can count up to the greatest of them. -/
instance : Scalar.Measures Float where
  exists_ofInt x last n h hn hlast := by
    rcases hn.eq_or_lt with rfl | hpos
    · obtain ⟨y, hy, -⟩ := exists_ofInt_of_abs_le (n := 0) (by norm_num)
      exact ⟨y, hy⟩
    · obtain ⟨a, ha, rfl⟩ := toInteger_tdiv_eq_ok_iff.mp h
      obtain ⟨c, hc, hfaithful⟩ := exists_value_ofInt n
      have ha0 : 0 ≤ a := by
        by_contra hneg
        have hle := Scalar.towardZero_mono (not_le.mp hneg).le
        rw [Scalar.towardZero_zero] at hle
        omega
      rw [Scalar.towardZero, if_pos ha0] at hlast
      have hna : (n : ℝ) ≤ a := Int.le_floor.mp hlast
      -- no integer is rounded beyond a double that is above it
      have hlow : ((0 : ℝ) : EReal) ≤ c := hfaithful.nonneg (Int.cast_nonneg hn)
      have hhigh : c ≤ ↑a := (hfaithful.between x a ha).1 (EReal.coe_le_coe_iff.mpr hna)
      obtain ⟨b, rfl, -, -⟩ := Scalar.Faithful.exists_coe_of_between hlow hhigh
      exact ⟨Float.ofInt n, if_neg (not_isInf_of_value hc)⟩

open Binary64 in
/-- Products are told from integers in doubles. -/
noncomputable instance : Scalar.Scales Float where
  eq_iff x y := beq_iff x y
  value_zero := Scalar.Faithful.value_zero (α := Float)
  value_one := Scalar.Faithful.value_one (α := Float)
  exists_of_value_mul _ _ _ h := exists_of_value_mul h
  truncate_eq_ok_iff _ _ := toInteger_tdiv_eq_ok_iff

end Orchestrion

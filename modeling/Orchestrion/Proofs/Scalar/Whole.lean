import Orchestrion.Proofs.Scalar.Exact

set_option autoImplicit false

/-!
# Integers among numbers

What is told from one integer to the next, a sample in its phase or a place between two
samples of a clip, needs little of an arithmetic: that integers which become numbers stay
integers and keep their order, and that the part of a number behind its integer can be
compared with a half.  A product of the second kind may be rounded in any way that keeps
the order.
-/

namespace Orchestrion

namespace Scalar

/-- Arithmetic that takes integers to integers in order. -/
class KeepsIntegers (α : Type) [Scalar α] [Faithful α] : Prop where
  exists_value_ofInt (n : Int) (x : α) (h : Scalar.ofInt n = .ok x) :
    ∃ k : ℤ, Faithful.value x = some ↑(k : ℝ) ∧ (0 ≤ n → 0 ≤ k) ∧ (1 ≤ n → 1 ≤ k)
  ofInt_mono (m n : Int) (x y : α) (j k : ℤ) (hmn : m ≤ n) (hx : Scalar.ofInt m = .ok x)
    (hy : Scalar.ofInt n = .ok y) (hj : Faithful.value x = some ↑(j : ℝ))
    (hk : Faithful.value y = some ↑(k : ℝ)) : j ≤ k

/-- Arithmetic in which places between integers are told. -/
class Places (α : Type) [Scalar α] where
  /-- the value of a number -/
  value : α → Option EReal
  /-- what a product is rounded to -/
  round : ℝ → EReal
  round_mono : Monotone round
  le_iff (x y : α) :
    Scalar.le x y = true ↔ ∃ a b, value x = some a ∧ value y = some b ∧ a ≤ b
  value_half : value (0.5 : α) = some ↑(1 / 2 : ℝ)
  value_mul (x y : α) (a b : ℝ) (hx : value x = some ↑a) (hy : value y = some ↑b) :
    value (x * y) = some (round (a * b))
  floor_eq (x : α) (a : ℝ) (hx : value x = some ↑a) : Scalar.floor x = .ok ⌊a⌋
  /-- the part of a number behind its integer is a number -/
  value_fract (x y : α) (a : ℝ) (ha : 0 ≤ a) (hx : value x = some ↑a)
    (hy : value y = some ↑(⌊a⌋ : ℝ)) : value (x - y) = some ↑(Int.fract a)

theorem Places.le_of_values {α : Type} [Scalar α] [Places α] {x y : α} {a b : EReal}
    (hx : value x = some a) (hy : value y = some b) : Scalar.le x y = true ↔ a ≤ b := by
  simp [le_iff, hx, hy]

/-- Whether the integers below some size are numbers that rounding leaves as they are. -/
def Places.FixesBelow (α : Type) [Scalar α] [Places α] (size : Nat) : Prop :=
  ∀ k < size, (∃ x : α, Scalar.ofInt k = .ok x ∧ value x = some ↑(k : ℝ)) ∧
    Places.round α k = ↑(k : ℝ)

theorem Places.round_nonneg {α : Type} [Scalar α] [Places α] {size : Nat}
    (h : FixesBelow α size) (hsize : 0 < size) {a : ℝ} (ha : 0 ≤ a) : 0 ≤ Places.round α a := by
  have hzero := (h 0 hsize).2
  rw [Nat.cast_zero] at hzero
  rw [← EReal.coe_zero, ← hzero]
  exact round_mono ha

/-! ## Real numbers -/

/-- The arithmetic of the real numbers, but for products, which are rounded. -/
noncomputable abbrev rounding (ρ : ℝ → ℝ) : Scalar ℝ :=
  { real with mul := fun a b => ρ (a * b) }

theorem value_half_real : some ((0.5 : ℝ) : EReal) = some ↑(1 / 2 : ℝ) := by norm_num

/-- Products may be rounded in any way that keeps the order. -/
noncomputable abbrev Places.rounding {ρ : ℝ → ℝ} (hρ : Monotone ρ) :
    @Places ℝ (Scalar.rounding ρ) :=
  letI := Scalar.rounding ρ
  { value := fun a => some ↑a
    round := fun a => ↑(ρ a)
    round_mono := fun _ _ hab => EReal.coe_le_coe_iff.mpr (hρ hab)
    le_iff := fun x y => by simp [Scalar.le]
    value_half := value_half_real
    value_mul := fun x y a b hx hy => by
      rw [← eq_of_some_coe hx, ← eq_of_some_coe hy]
      rfl
    floor_eq := fun x a hx => by
      rw [← eq_of_some_coe hx]
      rfl
    value_fract := fun x y a _ hx hy => by
      rw [← eq_of_some_coe hx] at hy ⊢
      rw [eq_of_some_coe hy]
      rfl }

theorem Places.fixesBelow_rounding {ρ : ℝ → ℝ} (hρ : Monotone ρ) {size : Nat}
    (h : ∀ k < size, ρ (k : ℝ) = k) :
    @Places.FixesBelow ℝ (Scalar.rounding ρ) (Places.rounding hρ) size := by
  intro k hk
  exact ⟨⟨k, rfl, rfl⟩, congrArg Real.toEReal (h k hk)⟩

end Scalar

end Orchestrion

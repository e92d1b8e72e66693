import Orchestrion.Proofs.Scalar.Exact

set_option autoImplicit false

/-!
# Arithmetic that rounds in order

A sum and a product are what the exact ones are rounded to, by one rounding that keeps
the order of numbers and leaves what is a number as it is.  Times that are added up in
such an arithmetic never run backwards, and neither do the samples next to them: the
rounding of a number to an integer, halves to the even neighbour, keeps the order too.
-/

namespace Orchestrion

namespace Scalar

/-! ## The nearest integer -/

/-- The integer next to a number, halves to the even neighbour. -/
noncomputable def halfEven (a : ℝ) : ℤ :=
  let rest := a - ⌊a⌋
  if rest + rest < 1 then ⌊a⌋
  else if 1 < rest + rest then ⌊a⌋ + 1
  else if ⌊a⌋ % 2 = 0 then ⌊a⌋ else ⌊a⌋ + 1

/-- The nearest integer is no farther away than a half. -/
theorem abs_halfEven_sub_le (a : ℝ) : |(halfEven a : ℝ) - a| ≤ 1 / 2 := by
  have hlow := Int.floor_le a
  have hhigh := Int.lt_floor_add_one a
  rw [abs_le, halfEven]
  split_ifs <;> push_cast <;> constructor <;> linarith

/-- Rounding to the nearest integer keeps the order: two numbers that were rounded to
integers in the opposite order would be one number. -/
theorem halfEven_mono : Monotone halfEven := by
  intro a b hab
  by_contra hlt
  have hstep : (halfEven b : ℝ) + 1 ≤ halfEven a := by exact_mod_cast not_le.mp hlt
  have ha := abs_le.mp (abs_halfEven_sub_le a)
  have hb := abs_le.mp (abs_halfEven_sub_le b)
  have heq : a = b := by linarith
  rw [heq] at hlt
  exact hlt le_rfl

theorem halfEven_intCast (n : ℤ) : halfEven n = n := by
  simp [halfEven]

theorem halfEven_nonneg {a : ℝ} (h : 0 ≤ a) : 0 ≤ halfEven a := by
  have hzero := halfEven_intCast 0
  rw [Int.cast_zero] at hzero
  exact hzero ▸ halfEven_mono h

/-! ## The laws -/

/-- Arithmetic that rounds in order. -/
class Rounded (α : Type) [Scalar α] [Faithful α] where
  /-- what a number is rounded to -/
  round : ℝ → EReal
  round_mono : Monotone round
  round_value (x : α) (a : ℝ) (hx : Faithful.value x = some ↑a) : round a = ↑a
  value_add (x y : α) (a b : ℝ) (hx : Faithful.value x = some ↑a)
    (hy : Faithful.value y = some ↑b) : Faithful.value (x + y) = some (round (a + b))
  value_mul (x y : α) (a b : ℝ) (hx : Faithful.value x = some ↑a)
    (hy : Faithful.value y = some ↑b) : Faithful.value (x * y) = some (round (a * b))
  value_add_top (x y : α) (a : ℝ) (hx : Faithful.value x = some ↑a)
    (hy : Faithful.value y = some ⊤) : Faithful.value (x + y) = some ⊤
  /-- an infinity is in no finite product -/
  value_top_mul (x y : α) (c : ℝ) (hx : Faithful.value x = some ⊤) :
    Faithful.value (x * y) ≠ some ↑c
  value_ofInt (n : Int) (x : α) (h : Scalar.ofInt n = .ok x) :
    ∃ a : ℝ, Faithful.value x = some ↑a ∧ (0 ≤ n → 0 ≤ a)
  /-- what is next to an integer is finite -/
  nearest_eq_ok_iff (x : α) (n : Int) :
    Scalar.nearest x = .ok n ↔ ∃ a : ℝ, Faithful.value x = some ↑a ∧ n = halfEven a

namespace Rounded

variable {α : Type} [Scalar α] [Faithful α] [Rounded α] {x y : α} {a b : ℝ}

/-- A number does not become smaller when something is added that is not negative. -/
theorem exists_value_add {b : EReal} (hx : Faithful.value x = some ↑a)
    (hy : Faithful.value y = some b) (hb : 0 ≤ b) :
    ∃ c, Faithful.value (x + y) = some c ∧ ↑a ≤ c := by
  induction b with
  | bot => exact absurd hb (not_le.mpr EReal.bot_lt_zero)
  | top => exact ⟨⊤, value_add_top x y a hx hy, le_top⟩
  | coe b =>
    have hle : a ≤ a + b := by
      have hb' : 0 ≤ b := by exact_mod_cast hb
      linarith
    refine ⟨_, value_add x y a b hx hy, ?_⟩
    rw [← round_value x a hx]
    exact round_mono hle

end Rounded

/-! ## Real numbers -/

attribute [local instance] real Faithful.real

/-- What is not rounded keeps its order. -/
noncomputable abbrev Rounded.real : Rounded ℝ where
  round a := ↑a
  round_mono := EReal.coe_strictMono.monotone
  round_value x a hx := rfl
  value_add x y a b hx hy := by
    rw [← eq_of_some_coe hx, ← eq_of_some_coe hy]
    rfl
  value_mul x y a b hx hy := by
    rw [← eq_of_some_coe hx, ← eq_of_some_coe hy]
    rfl
  value_add_top x y a hx hy := absurd (Option.some.inj hy) (EReal.coe_ne_top y)
  value_top_mul x y c hx := absurd (Option.some.inj hx) (EReal.coe_ne_top x)
  value_ofInt n x h := by
    cases h
    exact ⟨n, rfl, fun hn => by exact_mod_cast hn⟩
  nearest_eq_ok_iff x n := by
    have hnearest : Scalar.nearest x = .ok (halfEven x) := rfl
    rw [hnearest]
    constructor
    · intro h
      cases h
      exact ⟨x, rfl, rfl⟩
    · rintro ⟨a, ha, rfl⟩
      rw [eq_of_some_coe ha]

end Scalar

end Orchestrion

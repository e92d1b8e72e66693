import Orchestrion.Scalar
import Mathlib.Data.EReal.Basic
import Mathlib.Data.EReal.Operations
import Mathlib.Algebra.Order.Floor.Ring
import Mathlib.Algebra.Order.Archimedean.Real.Basic

set_option autoImplicit false

/-!
# Arithmetic that rounds faithfully

Numbers of a machine have values on the extended real line, and what is no number has
none.  Comparisons are those of the values.  A product or a quotient is rounded, but
its rounding passes over no number: where a number lies above the exact result, it
lies above the rounded one as well, and likewise below.  Whatever is rounded
monotonically and leaves the numbers as they are is of this kind: the doubles in which
signals are computed are, and so are the real numbers, which are not rounded at all.

These laws are all that the mix of an output needs of its arithmetic.
-/

namespace Orchestrion

/-- The integer next to a number in the direction of zero. -/
noncomputable def Scalar.towardZero (a : ℝ) : ℤ := if 0 ≤ a then ⌊a⌋ else ⌈a⌉

/-- The value of the greatest number of single precision. -/
def Scalar.singleLimit : ℝ := (2 ^ 128 - 2 ^ 104 : ℕ)

/-- Arithmetic that rounds faithfully. -/
class Scalar.Faithful (α : Type) [Scalar α] where
  /-- the value of a number -/
  value : α → Option EReal
  lt_iff (x y : α) :
    Scalar.lt x y = true ↔ ∃ a b, value x = some a ∧ value y = some b ∧ a < b
  le_iff (x y : α) :
    Scalar.le x y = true ↔ ∃ a b, value x = some a ∧ value y = some b ∧ a ≤ b
  eq_iff (x y : α) :
    Scalar.eq x y = true ↔ ∃ a b, value x = some a ∧ value y = some b ∧ a = b
  value_zero : value (0.0 : α) = some 0
  value_one : value (1.0 : α) = some 1
  value_maxSample : value (32767.0 : α) = some ↑((32767 : ℕ) : ℝ)
  value_singleMax : value (Scalar.singleMax : α) = some ↑Scalar.singleLimit
  value_neg (x : α) : value (-x) = (value x).map fun a => -a
  value_abs (x : α) : value (Scalar.abs x) = (value x).map fun a => a ⊔ -a
  /-- what is added to a finite number is a number before and after -/
  value_add (x y : α) (a : ℝ) (b : EReal) (hx : value x = some ↑a) (hy : value y = some b) :
    ∃ c, value (x + y) = some c
  /-- a number has a neighbour of single precision -/
  value_single (x : α) (a : EReal) (hx : value x = some a) : ∃ b, value (Scalar.single x) = some b
  /-- no number is between the product and what it is rounded to -/
  value_mul (x y : α) (a b : ℝ) (hx : value x = some ↑a) (hy : value y = some ↑b) :
    ∃ c, value (x * y) = some c ∧ ∀ z d, value z = some d →
      (↑(a * b) ≤ d → c ≤ d) ∧ (d ≤ ↑(a * b) → d ≤ c)
  /-- no number is between the quotient and what it is rounded to -/
  value_div (x y : α) (a b : ℝ) (hx : value x = some ↑a) (hy : value y = some ↑b) (hb : b ≠ 0) :
    ∃ c, value (x / y) = some c ∧ ∀ z d, value z = some d →
      (↑(a / b) ≤ d → c ≤ d) ∧ (d ≤ ↑(a / b) → d ≤ c)
  truncate_eq (x : α) (a : ℝ) (hx : value x = some ↑a) :
    Scalar.truncate x = .ok (Scalar.towardZero a)

namespace Scalar

/-! ## Dropping the places of a number -/

theorem towardZero_intCast (n : ℤ) : towardZero n = n := by
  unfold towardZero
  split
  · exact Int.floor_intCast n
  · exact Int.ceil_intCast n

theorem towardZero_zero : towardZero 0 = 0 := by
  have hzero := towardZero_intCast 0
  rwa [Int.cast_zero] at hzero

/-- Dropping the places of a number keeps the order. -/
theorem towardZero_mono {a b : ℝ} (hab : a ≤ b) : towardZero a ≤ towardZero b := by
  unfold towardZero
  split_ifs with ha hb hb
  · exact Int.floor_mono hab
  · exact absurd (ha.trans hab) hb
  · have hceil : ⌈a⌉ ≤ 0 := by
      rw [Int.ceil_le, Int.cast_zero]
      exact (not_le.mp ha).le
    exact hceil.trans (Int.floor_nonneg.mpr hb)
  · exact Int.ceil_mono hab

theorem towardZero_neg (a : ℝ) : towardZero (-a) = -towardZero a := by
  unfold towardZero
  rcases lt_trichotomy a 0 with hneg | rfl | hpos
  · rw [if_pos (by linarith), if_neg (not_le.mpr hneg), Int.floor_neg]
  · simp
  · rw [if_neg (by linarith), if_pos hpos.le, Int.ceil_neg]

theorem towardZero_div_of_nonneg {n : ℤ} (hn : 0 ≤ n) (d : ℕ) :
    towardZero ((n : ℝ) / d) = n.tdiv d := by
  have hn' : (0 : ℝ) ≤ n := by exact_mod_cast hn
  rw [towardZero, if_pos (by positivity), Int.floor_div_natCast, Int.floor_intCast,
    Int.tdiv_eq_ediv_of_nonneg hn]

theorem towardZero_div (n : ℤ) (d : ℕ) : towardZero ((n : ℝ) / d) = n.tdiv d := by
  rcases le_total 0 n with hn | hn
  · exact towardZero_div_of_nonneg hn d
  · have hneg := towardZero_div_of_nonneg (neg_nonneg.mpr hn) d
    rw [Int.cast_neg, neg_div, towardZero_neg, Int.neg_tdiv] at hneg
    exact neg_inj.mp hneg

theorem abs_towardZero_le {a : ℝ} {n : ℤ} (h : |a| ≤ n) : |towardZero a| ≤ n := by
  obtain ⟨hlow, hhigh⟩ := abs_le.mp h
  have hneg : ((-n : ℤ) : ℝ) ≤ a := by
    push_cast
    exact hlow
  rw [abs_le]
  unfold towardZero
  split
  · exact ⟨Int.le_floor.mpr hneg, Int.floor_le_iff.mpr (by linarith)⟩
  · exact ⟨Int.le_ceil_iff.mpr (by linarith), Int.ceil_le.mpr hhigh⟩

end Scalar

namespace Scalar.Faithful

variable {α : Type} [Scalar α] [Faithful α] {x y z : α} {a b : EReal}

/-- Anything but what is no number. -/
def IsNumber (x : α) : Prop := ∃ a, value x = some a

/-! ## Comparisons -/

theorem lt_of_values (hx : value x = some a) (hy : value y = some b) :
    Scalar.lt x y = true ↔ a < b := by
  simp [lt_iff, hx, hy]

theorem le_of_values (hx : value x = some a) (hy : value y = some b) :
    Scalar.le x y = true ↔ a ≤ b := by
  simp [le_iff, hx, hy]

theorem eq_of_values (hx : value x = some a) (hy : value y = some b) :
    Scalar.eq x y = true ↔ a = b := by
  rw [eq_iff]
  constructor
  · rintro ⟨a', b', hx', hy', hab⟩
    rw [hx] at hx'
    rw [hy] at hy'
    cases hx'
    cases hy'
    exact hab
  · exact fun hab => ⟨a, b, hx, hy, hab⟩

theorem isNaN_iff : Scalar.isNaN x = true ↔ value x = none := by
  rw [Scalar.isNaN, Bool.not_eq_true', Bool.eq_false_iff, ne_eq, eq_iff]
  cases value x <;> simp

theorem isNaN_of_value (hx : value x = some a) : Scalar.isNaN x = false := by
  rw [Bool.eq_false_iff, ne_eq, isNaN_iff, hx]
  exact nofun

theorem le_trans (hxy : Scalar.le x y = true) (hyz : Scalar.le y z = true) :
    Scalar.le x z = true := by
  obtain ⟨a, b, hx, hy, hab⟩ := (le_iff x y).mp hxy
  obtain ⟨b', c, hy', hz, hbc⟩ := (le_iff y z).mp hyz
  rw [hy] at hy'
  cases hy'
  exact (le_of_values hx hz).mpr (hab.trans hbc)

theorem value_max (hx : value x = some a) (hy : value y = some b) :
    value (Scalar.max x y) = some (a ⊔ b) := by
  rw [Scalar.max]
  by_cases hlt : a < b
  · rw [if_pos ((lt_of_values hx hy).mpr hlt), hy, sup_eq_right.mpr hlt.le]
  · rw [if_neg (mt (lt_of_values hx hy).mp hlt), hx, sup_eq_left.mpr (not_lt.mp hlt)]

theorem value_min (hx : value x = some a) (hy : value y = some b) :
    value (Scalar.min x y) = some (a ⊓ b) := by
  rw [Scalar.min]
  by_cases hlt : b < a
  · rw [if_pos ((lt_of_values hy hx).mpr hlt), hy, inf_eq_right.mpr hlt.le]
  · rw [if_neg (mt (lt_of_values hy hx).mp hlt), hx, inf_eq_left.mpr (not_lt.mp hlt)]

theorem value_abs_coe {r : ℝ} (hx : value x = some ↑r) : value (Scalar.abs x) = some ↑|r| := by
  have hmonotone : Monotone ((↑) : ℝ → EReal) := EReal.coe_strictMono.monotone
  rw [value_abs, hx, Option.map_some, ← EReal.coe_neg, ← hmonotone.map_sup]
  rfl

/-- What lies between two finite values is finite. -/
theorem exists_coe_of_between {low high : ℝ} (hlow : ↑low ≤ a) (hhigh : a ≤ ↑high) :
    ∃ r : ℝ, a = ↑r ∧ low ≤ r ∧ r ≤ high := by
  induction a with
  | bot => exact absurd hlow (not_le.mpr (EReal.bot_lt_coe _))
  | top => exact absurd hhigh (not_le.mpr (EReal.coe_lt_top _))
  | coe r => exact ⟨r, rfl, by exact_mod_cast hlow, by exact_mod_cast hhigh⟩

/-! ## Single precision -/

theorem singleLimit_pos : 0 < singleLimit := by
  norm_num [singleLimit]

theorem value_neg_singleMax : value (-Scalar.singleMax : α) = some ((-singleLimit : ℝ) : EReal) := by
  rw [value_neg, value_singleMax]
  rfl

theorem withinSingle_iff :
    Scalar.withinSingle x = true ↔ ∃ a : ℝ, value x = some ↑a ∧ |a| ≤ singleLimit := by
  rw [Scalar.withinSingle, Bool.and_eq_true]
  constructor
  · rintro ⟨hlow, hhigh⟩
    obtain ⟨low, a, hmin, hx, hlow⟩ := (le_iff _ _).mp hlow
    rw [value_neg_singleMax] at hmin
    cases hmin
    rw [le_of_values hx value_singleMax] at hhigh
    obtain ⟨r, rfl, hlow, hhigh⟩ := exists_coe_of_between hlow hhigh
    exact ⟨r, hx, abs_le.mpr ⟨hlow, hhigh⟩⟩
  · rintro ⟨a, hx, ha⟩
    rw [le_of_values value_neg_singleMax hx, le_of_values hx value_singleMax]
    exact ⟨by exact_mod_cast (abs_le.mp ha).1, by exact_mod_cast (abs_le.mp ha).2⟩

theorem withinSingle_clamp (h : IsNumber x) :
    Scalar.withinSingle (Scalar.clamp (-Scalar.singleMax) Scalar.singleMax x) = true := by
  obtain ⟨a, ha⟩ := h
  have hclamp := value_min (value_max ha value_neg_singleMax) value_singleMax
  have hpos : (-singleLimit : ℝ) ≤ singleLimit := by
    have := singleLimit_pos
    linarith
  rw [Scalar.withinSingle, Bool.and_eq_true, Scalar.clamp,
    le_of_values value_neg_singleMax hclamp, le_of_values hclamp value_singleMax]
  refine ⟨le_inf le_sup_right ?_, inf_le_right⟩
  exact_mod_cast hpos

/-- What is within single precision is a number. -/
theorem isNumber_of_withinSingle (h : Scalar.withinSingle x = true) : IsNumber x := by
  obtain ⟨a, ha, _⟩ := withinSingle_iff.mp h
  exact ⟨a, ha⟩

theorem withinSingle_zero : Scalar.withinSingle (0.0 : α) = true := by
  refine withinSingle_iff.mpr ⟨0, value_zero, ?_⟩
  rw [abs_zero]
  exact singleLimit_pos.le

end Scalar.Faithful

end Orchestrion

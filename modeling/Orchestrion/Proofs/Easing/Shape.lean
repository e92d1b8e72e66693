import Orchestrion.Easing.Catalog
import Orchestrion.Proofs.Scalar.Exact

set_option autoImplicit false

/-!
# Shapes of curves

Without rounding, a curve made of polynomials is one shape over the unit interval, moved
and stretched: from `b` over `c` in a segment of length `d` it has the value
`b + c * f (t / d)` at time `t`.  The shape of the slow start determines the family.  A
slow end is a slow start turned around, and what is slow at both ends is a slow start
over one half and a slow end over the other.
-/

namespace Orchestrion.Easing

open Scalar

variable {K : Type} [Field K] [LinearOrder K]

/-! ## The shapes of a family -/

/-- A shape turned around: what comes first comes last, upside down. -/
def mirrored (f : K → K) (x : K) : K := 1 - f (1 - x)

/-- A shape in the first half, and the same shape turned around in the second. -/
def joined (f : K → K) (x : K) : K :=
  if x + x < 1 then f (x + x) / (1 + 1) else 1 - f (1 - x + (1 - x)) / (1 + 1)

/-- How far something has fallen that rebounds three times from one: four parabolas. -/
def rebounds (x : K) : K :=
  if x < 4 / 11 then 121 / 16 * x ^ 2
  else if x < 8 / 11 then 121 / 16 * (x - 6 / 11) ^ 2 + 3 / 4
  else if x < 10 / 11 then 121 / 16 * (x - 9 / 11) ^ 2 + 15 / 16
  else 121 / 16 * (x - 21 / 22) ^ 2 + 63 / 64

/-- A start that goes the other way first, more so with a greater `s`. -/
def backward (s x : K) : K := x ^ 2 * ((s + 1) * x - s)

/-- How the curves of a family start when they start slowly, if they are made of
polynomials. -/
def start : Family → Direction → Option (K → K)
  | .linear, _ => some id
  | .quad, _ => some (· ^ 2)
  | .cubic, _ => some (· ^ 3)
  | .quart, _ => some (· ^ 4)
  | .quint, _ => some (· ^ 5)
  | .bounce, _ => some (mirrored rebounds)
  | .back, .easeInOut => some (backward (1.70158 * 1.525))
  | .back, _ => some (backward 1.70158)
  | _, _ => none

/-- A slow start put where a curve is slow. -/
def Direction.place : Direction → (K → K) → K → K
  | .easeIn, f => f
  | .easeOut, f => mirrored f
  | .easeInOut, f => joined f

/-- The shape of a curve, if it is made of polynomials. -/
def shape : Easing → Option (K → K)
  | .straight => some id
  | .curve family direction => (start family direction).map direction.place

section

omit [LinearOrder K]

@[simp] theorem mirrored_mirrored (f : K → K) : mirrored (mirrored f) = f := by
  funext x
  simp only [mirrored, sub_sub_cancel]

theorem mirrored_id : mirrored (id : K → K) = id := by
  funext x
  simp only [mirrored, id, sub_sub_cancel]

end

theorem joined_id [IsStrictOrderedRing K] : joined (id : K → K) = id := by
  funext x
  simp only [joined, id]
  split_ifs <;> ring

/-! ## The values of a curve -/

variable [IsStrictOrderedRing K] [HasElementary K]

attribute [local instance] Scalar.given

-- what is written with signs is meant in the field
attribute [local instance (low)] Scalar.toAdd Scalar.toSub Scalar.toMul Scalar.toDiv
  Scalar.toNeg Scalar.toOfScientific

variable {t b c d : K}

theorem linear_eq (hd : 0 < d) : linear t b c d = .ok (b + c * (t / d)) := by
  simp only [linear, quotient_of_ne hd.ne', bind, Except.bind, pure, Except.pure, mul_div_assoc]

theorem bounceOut_eq (hd : 0 < d) :
    bounceOut t b c d = .ok (b + c * rebounds (t / d)) := by
  have h₁ : (1.0 / 2.75 : K) = 4 / 11 := by norm_num
  have h₂ : (2.0 / 2.75 : K) = 8 / 11 := by norm_num
  have h₃ : (2.5 / 2.75 : K) = 10 / 11 := by norm_num
  simp only [bounceOut, quotient_of_ne hd.ne', bind, Except.bind, pure, Except.pure, lt, h₁, h₂,
    h₃, decide_eq_true_eq, rebounds]
  generalize t / d = x
  split_ifs <;> norm_num <;> ring

theorem bounceIn_eq (hd : 0 < d) :
    bounceIn t b c d = .ok (b + c * mirrored rebounds (t / d)) := by
  have hturned : (d - t) / d = 1 - t / d := by rw [sub_div, div_self hd.ne']
  simp only [bounceIn, bounceOut_eq hd, bind, Except.bind, pure, Except.pure, hturned, mirrored]
  norm_num
  ring

theorem bounceInOut_eq (hd : 0 < d) :
    bounceInOut t b c d = .ok (b + c * joined (mirrored rebounds) (t / d)) := by
  have hhalf : t < d / 2.0 ↔ t / d + t / d < 1 := by
    norm_num
    rw [← add_div, div_lt_one hd, lt_div_iff₀ two_pos, mul_two]
  have htwice : t * 2.0 / d = t / d + t / d := by
    norm_num
    ring
  have hrest : (t * 2.0 - d) / d = 1 - (1 - t / d + (1 - t / d)) := by
    rw [sub_div, div_self hd.ne', htwice]
    ring
  simp only [bounceInOut, lt, decide_eq_true_eq, hhalf, joined]
  split_ifs
  · simp only [bounceIn_eq hd, bind, Except.bind, pure, Except.pure, htwice]
    norm_num
    ring
  · simp only [bounceOut_eq hd, bind, Except.bind, pure, Except.pure, hrest, mirrored]
    norm_num
    ring

/-- A curve that starts slowly is its start. -/
theorem value_easeIn {family : Family} {f : K → K} (h : start family .easeIn = some f)
    (hd : 0 < d) : value (.curve family .easeIn) t b c d = .ok (b + c * f (t / d)) := by
  cases family <;> cases h
  case linear => exact linear_eq hd
  case bounce => exact bounceIn_eq hd
  all_goals
    simp only [value, quadIn, cubicIn, quartIn, quintIn, backIn, overshoot, backward,
      quotient_of_ne hd.ne', power, bind, Except.bind, pure, Except.pure]
    norm_num
    ring

/-- A curve that ends slowly is the start of its family turned around. -/
theorem value_easeOut {family : Family} {f : K → K} (h : start family .easeOut = some f)
    (hd : 0 < d) : value (.curve family .easeOut) t b c d = .ok (b + c * mirrored f (t / d)) := by
  cases family <;> cases h
  case linear =>
    rw [mirrored_id]
    exact linear_eq hd
  case bounce =>
    rw [mirrored_mirrored]
    exact bounceOut_eq hd
  all_goals
    simp only [value, quadOut, cubicOut, quartOut, quintOut, backOut, overshoot, backward,
      mirrored, quotient_of_ne hd.ne', power, bind, Except.bind, pure, Except.pure]
    norm_num
    ring

/-- A curve that is slow at both ends goes by the half of the segment that the time is in. -/
theorem value_easeInOut {family : Family} {f : K → K} (h : start family .easeInOut = some f)
    (hd : 0 < d) : value (.curve family .easeInOut) t b c d = .ok (b + c * joined f (t / d)) := by
  have hhalf : d / 2.0 ≠ 0 := by
    norm_num
    exact hd.ne'
  have htwice : t / (d / 2.0) = t / d + t / d := by
    norm_num
    ring
  cases family <;> cases h
  case linear =>
    rw [joined_id]
    exact linear_eq hd
  case bounce => exact bounceInOut_eq hd
  all_goals
    simp only [value, quadInOut, cubicInOut, quartInOut, quintInOut, backInOut, doubleOvershoot,
      overshoot, backward, joined, quotient_of_ne hhalf, htwice, decimal_one, lt, decide_eq_true_eq,
      power, bind, Except.bind, pure, Except.pure]
    generalize t / d = x
    split_ifs <;> norm_num <;> ring

/-- **Every curve that is made of polynomials has a shape.** -/
theorem value_eq {e : Easing} {f : K → K} (h : e.shape = some f) (hd : 0 < d) :
    e.value t b c d = .ok (b + c * f (t / d)) := by
  cases e with
  | straight =>
    cases h
    exact linear_eq hd
  | curve family direction =>
    obtain ⟨g, hg, rfl⟩ := Option.map_eq_some_iff.mp h
    cases direction with
    | easeIn => exact value_easeIn hg hd
    | easeOut => exact value_easeOut hg hd
    | easeInOut => exact value_easeInOut hg hd

/-! ## Shapes that stay between their ends -/

open Set (MapsTo Icc)

omit [HasElementary K]

variable {f : K → K}

theorem mapsTo_mirrored (h : MapsTo f (Icc 0 1) (Icc 0 1)) :
    MapsTo (mirrored f) (Icc 0 1) (Icc 0 1) := by
  rintro x ⟨hlow, hhigh⟩
  obtain ⟨hpos, hle⟩ := h ⟨sub_nonneg.mpr hhigh, sub_le_self 1 hlow⟩
  exact ⟨sub_nonneg.mpr hle, sub_le_self 1 hpos⟩

theorem mapsTo_joined (h : MapsTo f (Icc 0 1) (Icc 0 1)) :
    MapsTo (joined f) (Icc 0 1) (Icc 0 1) := by
  rintro x ⟨hlow, hhigh⟩
  rw [joined]
  split_ifs with hhalf
  · obtain ⟨hpos, hle⟩ := h ⟨add_nonneg hlow hlow, hhalf.le⟩
    exact ⟨by linarith, by linarith⟩
  · obtain ⟨hpos, hle⟩ := h (x := 1 - x + (1 - x)) ⟨by linarith, by linarith⟩
    exact ⟨by linarith, by linarith⟩

theorem mapsTo_pow (n : Nat) : MapsTo (· ^ n : K → K) (Icc 0 1) (Icc 0 1) := by
  rintro x ⟨hlow, hhigh⟩
  exact ⟨pow_nonneg hlow n, pow_le_one₀ hlow hhigh⟩

/-- Each parabola ends where the next begins, at one. -/
theorem mapsTo_rebounds : MapsTo (rebounds : K → K) (Icc 0 1) (Icc 0 1) := by
  rintro x ⟨hlow, hhigh⟩
  rw [rebounds]
  split_ifs with h₁ h₂ h₃
  · exact ⟨by positivity, by nlinarith⟩
  · exact ⟨by positivity, by nlinarith⟩
  · exact ⟨by positivity, by nlinarith⟩
  · exact ⟨by positivity, by nlinarith⟩

/-- The family of a curve. -/
def family : Easing → Family
  | .straight => .linear
  | .curve family _ => family

/-- The families of polynomials that never leave the values at the ends of a segment. -/
def boundedFamilies : List Family := [.linear, .quad, .cubic, .quart, .quint, .bounce]

theorem exists_start {family : Family} (h : family ∈ boundedFamilies) (direction : Direction) :
    ∃ f : K → K, start family direction = some f ∧ MapsTo f (Icc 0 1) (Icc 0 1) := by
  cases family
  case linear => exact ⟨_, rfl, Set.mapsTo_id _⟩
  case quad => exact ⟨_, rfl, mapsTo_pow 2⟩
  case cubic => exact ⟨_, rfl, mapsTo_pow 3⟩
  case quart => exact ⟨_, rfl, mapsTo_pow 4⟩
  case quint => exact ⟨_, rfl, mapsTo_pow 5⟩
  case bounce => exact ⟨_, rfl, mapsTo_mirrored mapsTo_rebounds⟩
  all_goals exact absurd h (by decide)

theorem exists_shape {e : Easing} (h : e.family ∈ boundedFamilies) :
    ∃ f : K → K, e.shape = some f ∧ MapsTo f (Icc 0 1) (Icc 0 1) := by
  cases e with
  | straight => exact ⟨id, rfl, Set.mapsTo_id _⟩
  | curve family direction =>
    obtain ⟨f, hstart, hf⟩ : ∃ f : K → K, start family direction = some f ∧ _ :=
      exists_start h direction
    refine ⟨direction.place f, by rw [shape, hstart]; rfl, ?_⟩
    cases direction with
    | easeIn => exact hf
    | easeOut => exact mapsTo_mirrored hf
    | easeInOut => exact mapsTo_joined hf

/-- **A bounded curve mixes the values at the ends of its segment.** -/
theorem exists_value [HasElementary K] {e : Easing} (h : e.family ∈ boundedFamilies) (ht : 0 ≤ t)
    (htd : t ≤ d) (hd : 0 < d) (b c : K) :
    ∃ p ∈ Icc (0 : K) 1, e.value t b c d = .ok (b + c * p) := by
  obtain ⟨f, hshape, hf⟩ := exists_shape (K := K) h
  exact ⟨f (t / d), hf ⟨div_nonneg ht hd.le, (div_le_one hd).mpr htd⟩, value_eq hshape hd⟩

end Orchestrion.Easing

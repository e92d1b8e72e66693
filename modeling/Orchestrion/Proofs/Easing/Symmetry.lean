import Orchestrion.Proofs.Easing.Ends

set_option autoImplicit false

/-!
# Symmetries of curves

The curves of a family are one shape in three places.  A slow end is the slow start turned
around, in time and in value.  What is slow at both ends is turned into itself
(`joined_add_joined`): at the middle of the segment, where both halves are read from the
second one, this takes a shape that ends at one.  And if the family uses the same shape
there as elsewhere, the two halves are its other two curves, in half the time and over half
the way.
-/

namespace Orchestrion.Easing

open Scalar

variable {K : Type} [Field K] [LinearOrder K]

/-! ## Shapes -/

/-- The families whose curves are made of polynomials. -/
def polynomialFamilies : List Family := [.linear, .quad, .cubic, .quart, .quint, .back, .bounce]

/-- The families that join their own slow start, turned around, to itself. -/
def joiningFamilies : List Family := [.quad, .cubic, .quart, .quint, .bounce]

/-- A slow start in time and a slow end are made of one shape. -/
theorem start_easeOut (family : Family) :
    start (K := K) family .easeOut = start family .easeIn := by
  cases family <;> rfl

theorem start_easeInOut {family : Family} (h : family ∈ joiningFamilies) :
    start (K := K) family .easeInOut = start family .easeIn := by
  cases family
  case quad | cubic | quart | quint | bounce => rfl
  all_goals exact absurd h (by decide)

theorem exists_start_polynomial {family : Family} (h : family ∈ polynomialFamilies)
    (direction : Direction) : ∃ f : K → K, start family direction = some f := by
  cases family
  case back => cases direction <;> exact ⟨_, rfl⟩
  case linear | quad | cubic | quart | quint | bounce => exact ⟨_, rfl⟩
  all_goals exact absurd h (by decide)

variable [IsStrictOrderedRing K]

/-- What is slow at both ends is turned into itself. -/
theorem joined_add_joined {f : K → K} (h : Spans f) (x : K) :
    joined f x + joined f (1 - x) = 1 := by
  rcases lt_trichotomy (x + x) 1 with hlt | heq | hgt
  · have hrest : ¬1 - x + (1 - x) < 1 := by linarith
    rw [joined, joined, if_pos hlt, if_neg hrest, sub_sub_cancel]
    ring
  · have hturned : 1 - x = x := by linarith
    rw [hturned, joined, if_neg heq.not_lt, hturned, heq, h.one]
    ring
  · have hrest : 1 - x + (1 - x) < 1 := by linarith
    rw [joined, joined, if_neg hgt.not_gt, if_pos hrest]
    ring

/-! ## Curves -/

variable [HasElementary K]

attribute [local instance] Scalar.given

-- what is written with signs is meant in the field
attribute [local instance (low)] Scalar.toAdd Scalar.toSub Scalar.toMul Scalar.toDiv
  Scalar.toNeg Scalar.toOfScientific

/-- What turning a segment around makes of the curves of a family. -/
structure IsTurned (family : Family) (t b c d : K) : Prop where
  /-- a slow end is the slow start, seen from the other end -/
  easeOut : ∃ v, value (.curve family .easeIn) (d - t) b c d = .ok v ∧
    value (.curve family .easeOut) t b c d = .ok (2 * b + c - v)
  /-- what is slow at both ends is the same from either end -/
  easeInOut : ∃ v w, value (.curve family .easeInOut) t b c d = .ok v ∧
    value (.curve family .easeInOut) (d - t) b c d = .ok w ∧ v + w = 2 * b + c

/-- How a curve that is slow at both ends is put together: each half of the segment is gone
through in half the time and over half the way. -/
structure IsJoined (family : Family) (t b c d : K) : Prop where
  first : t < d / 2 → ∃ v, value (.curve family .easeInOut) t b c d = .ok v ∧
    value (.curve family .easeIn) (2 * t) b (c / 2) d = .ok v
  second : d / 2 ≤ t → ∃ v, value (.curve family .easeInOut) t b c d = .ok v ∧
    value (.curve family .easeOut) (2 * t - d) (b + c / 2) (c / 2) d = .ok v

variable {family : Family} {t b c d : K}

theorem isTurned (h : family ∈ polynomialFamilies) (hd : 0 < d) : IsTurned family t b c d := by
  have hturned : (d - t) / d = 1 - t / d := by rw [sub_div, div_self hd.ne']
  constructor
  case easeOut =>
    obtain ⟨f, hstart⟩ := exists_start_polynomial (K := K) h .easeIn
    refine ⟨_, value_easeIn hstart hd, ?_⟩
    rw [value_easeOut ((start_easeOut family).trans hstart) hd, hturned, mirrored]
    congr 1
    ring
  case easeInOut =>
    obtain ⟨f, hstart⟩ := exists_start_polynomial (K := K) h .easeInOut
    refine ⟨_, _, value_easeInOut hstart hd, value_easeInOut hstart hd, ?_⟩
    have hsum := joined_add_joined (spans_start hstart) (t / d)
    rw [hturned]
    linear_combination c * hsum

theorem isJoined (h : family ∈ joiningFamilies) (hd : 0 < d) : IsJoined family t b c d := by
  have hsubset : joiningFamilies ⊆ polynomialFamilies := by decide
  obtain ⟨f, hstart⟩ := exists_start_polynomial (K := K) (hsubset h) .easeIn
  have hhalf : t < d / 2 ↔ t / d + t / d < 1 := by
    rw [← add_div, div_lt_one hd, lt_div_iff₀ two_pos, mul_two]
  have hboth := value_easeInOut (t := t) (b := b) (c := c) ((start_easeInOut h).trans hstart) hd
  constructor
  case first =>
    intro ht
    refine ⟨_, hboth, ?_⟩
    rw [value_easeIn hstart hd, joined, if_pos (hhalf.mp ht), two_mul, add_div]
    congr 1
    ring
  case second =>
    intro ht
    refine ⟨_, hboth, ?_⟩
    have hrest : 1 - (2 * t - d) / d = 1 - t / d + (1 - t / d) := by
      rw [sub_div, div_self hd.ne']
      ring
    rw [value_easeOut ((start_easeOut family).trans hstart) hd, joined,
      if_neg (mt hhalf.mpr (not_lt.mpr ht)), mirrored, hrest]
    congr 1
    ring

/-- **The symmetries of the curves.**  Without rounding, at every time and for every segment
with a length, a slow end is the slow start turned around, and what is slow at both ends is
turned into itself.  Where a family joins its own slow start, the halves are its other two
curves. -/
theorem curves_symmetric (hd : 0 < d) :
    (family ∈ polynomialFamilies → IsTurned family t b c d) ∧
      (family ∈ joiningFamilies → IsJoined family t b c d) :=
  ⟨fun h => isTurned h hd, fun h => isJoined h hd⟩

attribute [local instance] HasElementary.real

/-- After three of four beats, as after two of four in the second half. -/
theorem curves_symmetric_quad :
    (0 : ℝ) < 4 ∧ Family.quad ∈ polynomialFamilies ∧ Family.quad ∈ joiningFamilies ∧
      value (.curve .quad .easeOut) (3 : ℝ) 0 1 4 = .ok (15 / 16) ∧
      value (.curve .quad .easeInOut) (3 : ℝ) 0 1 4 = .ok (7 / 8) ∧
      value (.curve .quad .easeOut) (2 : ℝ) (1 / 2) (1 / 2) 4 = .ok (7 / 8) := by
  have hd : (0 : ℝ) < 4 := by norm_num
  have hpolynomial : Family.quad ∈ polynomialFamilies := by decide
  have hjoining : Family.quad ∈ joiningFamilies := by decide
  obtain ⟨f, hstart, hsquare⟩ : ∃ f : ℝ → ℝ, start .quad .easeIn = some f ∧ ∀ x, f x = x ^ 2 :=
    ⟨_, rfl, fun _ => rfl⟩
  have hslow (t b c : ℝ) : value (.curve .quad .easeIn) t b c 4 = .ok (b + c * f (t / 4)) :=
    value_easeIn hstart hd
  have hslowEnds (t b c : ℝ) :
      value (.curve .quad .easeInOut) t b c 4 = .ok (b + c * joined f (t / 4)) :=
    value_easeInOut hstart hd
  have hsymmetric : (Family.quad ∈ polynomialFamilies → IsTurned .quad (3 : ℝ) 0 1 4) ∧
      (Family.quad ∈ joiningFamilies → IsJoined .quad (3 : ℝ) 0 1 4) := curves_symmetric hd
  obtain ⟨v, hin, hout⟩ := (hsymmetric.1 hpolynomial).easeOut
  obtain ⟨w, hboth, hsecond⟩ := (hsymmetric.2 hjoining).second (by norm_num)
  rw [hslow] at hin
  rw [hslowEnds] at hboth
  cases hin
  cases hboth
  norm_num [joined, hsquare] at hout hsecond
  refine ⟨hd, hpolynomial, hjoining, ?_, ?_, ?_⟩
  · rw [hout]
  · rw [hslowEnds]
    norm_num [joined, hsquare]
  · rw [hsecond]

end Orchestrion.Easing

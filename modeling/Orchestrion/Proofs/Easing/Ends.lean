import Orchestrion.Proofs.Easing.Domain

set_option autoImplicit false

/-!
# Where curves begin and end

Without rounding, every curve of the catalog has the value `b` when its segment begins and
`b + c` when it ends, so that the phases of an envelope meet.  A shape made of polynomials
spans the way from zero to one, and so it does turned around or joined to itself.  The other
curves need a few values of the functions that lead out of a field; a spring, and an
exponential curve at one of its ends, would not come to these values by itself, so there the
time is compared with the end.
-/

namespace Orchestrion

namespace Scalar

/-- What curves need at their ends of the functions that lead out of a field. -/
structure Elementary.KnowsEnds {K : Type} [Field K] (e : Elementary K) : Prop where
  cos_zero : e.cos 0 = 1
  cos_quarter : e.cos (e.pi / 2) = 0
  cos_half : e.cos e.pi = -1
  sin_zero : e.sin 0 = 0
  sin_quarter : e.sin (e.pi / 2) = 1
  root_zero : e.root 0 = 0
  root_one : e.root 1 = 1
  exp2_zero : e.exp2 0 = 1

end Scalar

namespace Easing

open Scalar

/-! ## The catalog -/

/-- What is listed can be looked up. -/
theorem exists_find? {s : String} (h : s ∈ names) : ∃ e, find? s = some e := by
  obtain ⟨e, he, rfl⟩ := List.mem_map.mp h
  exact Option.isSome_iff_exists.mp (List.find?_isSome.mpr ⟨e, he, beq_self_eq_true _⟩)

/-! ## Shapes that span the way -/

section

variable {K : Type} [Field K]

/-- A shape that begins at zero and ends at one. -/
structure Spans (f : K → K) : Prop where
  zero : f 0 = 0
  one : f 1 = 1

theorem spans_id : Spans (id : K → K) := ⟨rfl, rfl⟩

theorem spans_pow {n : Nat} (h : n ≠ 0) : Spans (· ^ n : K → K) := ⟨zero_pow h, one_pow n⟩

theorem spans_backward (s : K) : Spans (backward s) := by
  constructor <;> rw [backward] <;> ring

theorem Spans.mirrored {f : K → K} (h : Spans f) : Spans (mirrored f) := by
  constructor
  case zero => rw [Easing.mirrored, sub_zero, h.one, sub_self]
  case one => rw [Easing.mirrored, sub_self, h.zero, sub_zero]

variable [LinearOrder K] [IsStrictOrderedRing K]

theorem spans_rebounds : Spans (rebounds : K → K) := by
  constructor <;> norm_num [rebounds]

theorem Spans.joined {f : K → K} (h : Spans f) : Spans (joined f) := by
  constructor <;> norm_num [Easing.joined, h.zero]

theorem spans_start {family : Family} {direction : Direction} {f : K → K}
    (h : start family direction = some f) : Spans f := by
  cases family
  case linear => cases h; exact spans_id
  case quad => cases h; exact spans_pow two_ne_zero
  case cubic => cases h; exact spans_pow three_ne_zero
  case quart => cases h; exact spans_pow four_ne_zero
  case quint => cases h; exact spans_pow (Nat.succ_ne_zero 4)
  case bounce => cases h; exact spans_rebounds.mirrored
  case back => cases direction <;> cases h <;> exact spans_backward _
  all_goals cases h

theorem spans_shape {e : Easing} {f : K → K} (h : e.shape = some f) : Spans f := by
  cases e with
  | straight =>
    cases h
    exact spans_id
  | curve family direction =>
    obtain ⟨g, hstart, rfl⟩ := Option.map_eq_some_iff.mp h
    have hspans := spans_start hstart
    cases direction with
    | easeIn => exact hspans
    | easeOut => exact hspans.mirrored
    | easeInOut => exact hspans.joined

end

/-! ## Curves that meet the ends of their segments -/

variable {K : Type} [Field K] [LinearOrder K] [IsStrictOrderedRing K] [HasElementary K]

attribute [local instance] Scalar.given

-- what is written with signs is meant in the field
attribute [local instance (low)] Scalar.toAdd Scalar.toSub Scalar.toMul Scalar.toDiv
  Scalar.toNeg Scalar.toOfScientific

/-- A curve begins and ends where its segment says. -/
structure Meets (e : Easing) (b c d : K) : Prop where
  begins : value e 0 b c d = .ok b
  ends : value e d b c d = .ok (b + c)

variable {b c d : K}

theorem meets_of_shape {e : Easing} {f : K → K} (h : e.shape = some f) (hd : 0 < d) :
    Meets e b c d := by
  have hspans := spans_shape h
  constructor
  case begins => rw [value_eq h hd, zero_div, hspans.zero, mul_zero, add_zero]
  case ends => rw [value_eq h hd, div_self hd.ne', hspans.one, mul_one]

/-! ### Time at the ends, in units of half the segment -/

theorem quotient_half_zero (hd : 0 < d) : quotient 0 (d / 2) = .ok (0 : K) := by
  rw [quotient_of_ne (div_ne_zero hd.ne' two_ne_zero), zero_div]

theorem quotient_half_self (hd : 0 < d) : quotient d (d / 2) = .ok (2 : K) := by
  rw [quotient_of_ne (div_ne_zero hd.ne' two_ne_zero), div_div_cancel₀ hd.ne']

/-! ### Curves that are not made of polynomials -/

/-- A spring is not asked for its swing at an end. -/
theorem meets_elastic (direction : Direction) (hd : 0 < d) :
    Meets (.curve .elastic direction) b c d := by
  cases direction
  all_goals
    constructor
    case begins =>
      norm_num [value, elasticIn, elasticOut, elasticInOut, eq, pure, Except.pure]
    case ends =>
      norm_num [value, elasticIn, elasticOut, elasticInOut, eq, quotient_of_ne hd.ne',
        quotient_half_self hd, div_self hd.ne', hd.ne', bind, Except.bind, pure, Except.pure]

section

variable (h : (HasElementary.elementary : Elementary K).KnowsEnds)

include h

theorem meets_sine (direction : Direction) (hd : 0 < d) :
    Meets (.curve .sine direction) b c d := by
  cases direction
  all_goals
    constructor <;>
    norm_num [value, sineIn, sineOut, sineInOut, quotient_of_ne hd.ne', sin, cos, Scalar.pi,
      h.cos_zero, h.cos_quarter, h.cos_half, h.sin_zero, h.sin_quarter, hd.ne', add_comm, bind,
      Except.bind, pure, Except.pure]

theorem meets_circ (direction : Direction) (hd : 0 < d) :
    Meets (.curve .circ direction) b c d := by
  cases direction
  all_goals
    constructor <;>
    norm_num [value, circIn, circOut, circInOut, quotient_of_ne hd.ne', quotient_half_zero hd,
      quotient_half_self hd, sqrt, lt, h.root_zero, h.root_one, hd.ne', add_comm, bind,
      Except.bind, pure, Except.pure]

theorem meets_expo (direction : Direction) (hd : 0 < d) :
    Meets (.curve .expo direction) b c d := by
  cases direction
  all_goals
    constructor <;>
    norm_num [value, expoIn, expoOut, expoInOut, quotient_of_ne hd.ne', eq, exp2, h.exp2_zero,
      hd.ne, hd.ne', add_comm, bind, Except.bind, pure, Except.pure]

theorem meets (e : Easing) (hd : 0 < d) : Meets e b c d := by
  cases e with
  | straight => exact meets_of_shape rfl hd
  | curve family direction =>
    cases family
    case sine => exact meets_sine h direction hd
    case circ => exact meets_circ h direction hd
    case expo => exact meets_expo h direction hd
    case elastic => exact meets_elastic direction hd
    case back => cases direction <;> exact meets_of_shape rfl hd
    all_goals exact meets_of_shape rfl hd

/-- **Every curve of the catalog meets the ends of its segment.**  There are 34 names, each
of one curve that can be looked up.  Whatever the segment is, if only it has a length, the
curve is at `b` when it begins and at `b + c` when it ends. -/
theorem catalog_meets_ends :
    names.Nodup ∧ names.length = 34 ∧ ∀ s ∈ names, ∃ e, find? s = some e ∧
      ∀ b c d : K, 0 < d → Meets e b c d := by
  refine ⟨by decide +kernel, by decide +kernel, fun s hs => ?_⟩
  obtain ⟨e, he⟩ := exists_find? hs
  exact ⟨e, he, fun b c d hd => meets h e hd⟩

end

attribute [local instance] HasElementary.real

theorem knowsEnds_real : (HasElementary.elementary : Elementary ℝ).KnowsEnds where
  cos_zero := Real.cos_zero
  cos_quarter := Real.cos_pi_div_two
  cos_half := Real.cos_pi
  sin_zero := Real.sin_zero
  sin_quarter := Real.sin_pi_div_two
  root_zero := Real.sqrt_zero
  root_one := Real.sqrt_one
  exp2_zero := Real.rpow_zero _

theorem catalog_meets_ends_circ :
    (HasElementary.elementary : Elementary ℝ).KnowsEnds ∧ "CircInOut" ∈ names ∧ (0 : ℝ) < 5 ∧
      value (.curve .circ .easeInOut) (0 : ℝ) 1 (-3) 5 = .ok 1 ∧
      value (.curve .circ .easeInOut) (5 : ℝ) 1 (-3) 5 = .ok (-2) := by
  have hname : "CircInOut" ∈ names := by decide +kernel
  have hfound : find? "CircInOut" = some (.curve .circ .easeInOut) := by decide +kernel
  obtain ⟨-, -, hmeets⟩ := catalog_meets_ends (K := ℝ) knowsEnds_real
  obtain ⟨e, he, hends⟩ := hmeets "CircInOut" hname
  cases hfound.symm.trans he
  obtain ⟨hbegins, hends⟩ := hends 1 (-3) 5 (by norm_num)
  refine ⟨knowsEnds_real, hname, by norm_num, hbegins, hends.trans ?_⟩
  norm_num

end Easing

end Orchestrion

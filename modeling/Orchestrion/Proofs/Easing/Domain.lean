import Orchestrion.Proofs.Easing.Shape

set_option autoImplicit false

/-!
# Where curves are defined

A quotient by zero, the root of a negative number and a power of two with a great exponent
are nothing that a curve asks for: whatever the operations give there, a curve has the same
value between the ends of its segment (`agree_value`).  There the time in units of the
segment is between zero and one, and in units of half the segment between zero and two.
From that the curves that are made of polynomials only need that the segment has a length;
the others need it for what they take a root of and for the exponents of their powers.
-/

namespace Orchestrion

open Set (Icc)

namespace Scalar

/-- What the operations of a field give where they are not defined, whatever it may be. -/
structure Elsewhere (K : Type) where
  /-- a quotient by zero -/
  quotient : K → K
  /-- the root of a negative number -/
  root : K → Except ArithFault K
  /-- a power of two whose exponent is not between minus ten and zero -/
  exp2 : K → Except ArithFault K

variable {K : Type} [Field K] [LinearOrder K] [HasElementary K]

/-- The arithmetic of an ordered field, but for quotients by zero, roots of negative numbers
and powers of two with exponents that are not between minus ten and zero. -/
abbrev within (e : Elsewhere K) : Scalar K :=
  { given (K := K) with
    div := fun a b => if b = 0 then e.quotient a else a / b
    sqrt := fun x => if x < 0 then e.root x else .ok (HasElementary.elementary.root x)
    exp2 := fun x =>
      if ((-10 : ℤ) : K) ≤ x ∧ x ≤ 0 then .ok (HasElementary.elementary.exp2 x) else e.exp2 x }

section

variable (e : Elsewhere K)

theorem div_within (a : K) {b : K} (hb : b ≠ 0) :
    @HDiv.hDiv K K K (@instHDiv K (within e).toDiv) a b = a / b := if_neg hb

theorem sqrt_within {x : K} (hx : 0 ≤ x) :
    @Scalar.sqrt K (within e) x = .ok (HasElementary.elementary.root x) :=
  if_neg (not_lt.mpr hx)

theorem exp2_within {x : K} (hx : x ∈ Icc (-10) 0) :
    @Scalar.exp2 K (within e) x = .ok (HasElementary.elementary.exp2 x) := by
  have hlow : ((-10 : ℤ) : K) = -10 := by norm_num
  exact if_pos ⟨hlow.le.trans hx.1, hx.2⟩

theorem quotient_within [IsStrictOrderedRing K] (a : K) {b : K} (hb : b ≠ 0) :
    @quotient K (within e) a b = .ok (a / b) := by
  have hzero : (0.0 : K) = 0 := by norm_num
  have hne : ¬decide (b = 0.0) = true := by
    rw [hzero]
    exact mt of_decide_eq_true hb
  exact (if_neg hne).trans (congrArg _ (div_within e a hb))

end

theorem exp2_given (x : K) :
    @Scalar.exp2 K given x = .ok (HasElementary.elementary.exp2 x) := rfl

theorem sqrt_given {x : K} (hx : 0 ≤ x) :
    @Scalar.sqrt K given x = .ok (HasElementary.elementary.root x) := if_neg (not_lt.mpr hx)

end Scalar

namespace Easing

open Scalar

variable {K : Type} [Field K] [LinearOrder K] [HasElementary K]

/-- Whether a curve has a value that is the same whatever the operations give where they are
not defined. -/
def Agree (curve : Scalar K → Except ArithFault K) : Prop :=
  ∃ v, curve given = .ok v ∧ ∀ e, curve (within e) = .ok v

theorem agree_ok (v : K) : Agree fun _ => .ok v := ⟨v, rfl, fun _ => rfl⟩

variable [IsStrictOrderedRing K] {t b c d p : K}

section

omit [HasElementary K]

theorem decimal_two_ne : (2.0 : K) ≠ 0 := by norm_num

theorem half_ne (hd : 0 < d) : d / 2.0 ≠ 0 := div_ne_zero hd.ne' decimal_two_ne

end

/-! ## Curves made of polynomials -/

theorem agree_polynomial {f : Easing} {g : K → K} (h : f.shape = some g) (hd : 0 < d) :
    Agree fun S => @value K S f t b c d := by
  have hwidth : (2.75 : K) ≠ 0 := by norm_num
  -- the shape gives the value in the field; what remains is that the other arithmetic has it too
  refine ⟨_, value_eq h hd, ?_⟩
  rw [← value_eq h hd]
  intro e
  cases f with
  | straight =>
    simp only [value, linear, quotient_of_ne hd.ne', quotient_within _ _ hd.ne', bind, Except.bind]
  | curve family direction =>
    cases family <;> cases direction <;> cases h
    all_goals
      simp only [value, linear, quadIn, quadOut, quadInOut, cubicIn, cubicOut, cubicInOut,
        quartIn, quartOut, quartInOut, quintIn, quintOut, quintInOut, backIn, backOut, backInOut,
        overshoot, doubleOvershoot, bounceIn, bounceOut, bounceInOut, quotient_of_ne hd.ne',
        quotient_within _ _ hd.ne', quotient_of_ne (half_ne hd), quotient_within _ _ (half_ne hd),
        div_within _ _ decimal_two_ne, div_within _ _ hwidth, bind, Except.bind, pure, Except.pure,
        power, lt]

/-! ## Time in units of the segment -/

section

omit [HasElementary K]

theorem unit_mem (ht : 0 ≤ t) (htd : t ≤ d) (hd : 0 < d) : t / d ∈ Icc (0 : K) 1 :=
  ⟨div_nonneg ht hd.le, (div_le_one hd).mpr htd⟩

theorem half_mem (ht : 0 ≤ t) (htd : t ≤ d) (hd : 0 < d) : t / (d / 2.0) ∈ Icc (0 : K) 2 := by
  have htwice : t / (d / 2.0) = t / d + t / d := by
    norm_num
    ring
  obtain ⟨hlow, hhigh⟩ := unit_mem ht htd hd
  rw [htwice]
  exact ⟨by linarith, by linarith⟩

theorem first_half_mem {x : K} (hx : x ∈ Icc 0 2) (hfirst : x < 1.0) : x ∈ Icc (0 : K) 1 := by
  rw [decimal_one] at hfirst
  exact ⟨hx.1, hfirst.le⟩

theorem second_half_mem {x : K} (hx : x ∈ Icc 0 2) (hsecond : ¬x < 1.0) :
    x - 1.0 ∈ Icc (0 : K) 1 := by
  obtain ⟨-, hhigh⟩ := hx
  rw [decimal_one] at hsecond ⊢
  exact ⟨by linarith, by linarith⟩

/-- What a curve takes a root of. -/
theorem one_sub_sq_nonneg {x : K} (hlow : -1 ≤ x) (hhigh : x ≤ 1) : 0 ≤ 1.0 - x * x := by
  have hsq : x * x ≤ 1 := by nlinarith
  rwa [decimal_one, sub_nonneg]

/-- The exponent of a curve that starts slowly. -/
theorem rising_mem {x : K} (hx : x ∈ Icc 0 1) : 10.0 * (x - 1.0) ∈ Icc (-10 : K) 0 := by
  obtain ⟨hlow, hhigh⟩ := hx
  have hten : (10.0 : K) = 10 := by norm_num
  rw [hten, decimal_one]
  exact ⟨by linarith, by linarith⟩

/-- The exponent of a curve that ends slowly. -/
theorem falling_mem {x : K} (hx : x ∈ Icc 0 1) : -10.0 * x ∈ Icc (-10 : K) 0 := by
  obtain ⟨hlow, hhigh⟩ := hx
  have hten : (10.0 : K) = 10 := by norm_num
  rw [hten]
  exact ⟨by linarith, by linarith⟩

end

/-! ## Curves made of waves, circles and powers of two -/

theorem agree_sine (direction : Direction) (hd : 0 < d) :
    Agree fun S => @value K S (.curve .sine direction) t b c d := by
  cases direction
  all_goals
    simp only [Agree, value, sineIn, sineOut, sineInOut, quotient_of_ne hd.ne',
      quotient_within _ _ hd.ne', div_within _ _ decimal_two_ne, bind, Except.bind, pure,
      Except.pure, sin, cos]
    exact agree_ok _

theorem agree_circ (direction : Direction) (ht : 0 ≤ t) (htd : t ≤ d) (hd : 0 < d) :
    Agree fun S => @value K S (.curve .circ direction) t b c d := by
  obtain ⟨hlow, hhigh⟩ := unit_mem ht htd hd
  cases direction with
  | easeIn =>
    have hroot : 0 ≤ 1.0 - t / d * (t / d) := one_sub_sq_nonneg (by linarith) hhigh
    simp only [Agree, value, circIn, quotient_of_ne hd.ne', quotient_within _ _ hd.ne',
      sqrt_given hroot, sqrt_within _ hroot, bind, Except.bind, pure, Except.pure]
    exact agree_ok _
  | easeOut =>
    have hroot : 0 ≤ 1.0 - (t / d - 1.0) * (t / d - 1.0) := by
      apply one_sub_sq_nonneg
      · rw [decimal_one]
        linarith
      · rw [decimal_one]
        linarith
    simp only [Agree, value, circOut, quotient_of_ne hd.ne', quotient_within _ _ hd.ne',
      sqrt_given hroot, sqrt_within _ hroot, bind, Except.bind, pure, Except.pure]
    exact agree_ok _
  | easeInOut =>
    have hx := half_mem ht htd hd
    simp only [Agree, value, circInOut, quotient_of_ne (half_ne hd),
      quotient_within _ _ (half_ne hd), div_within _ _ decimal_two_ne, bind, Except.bind, pure,
      Except.pure, lt, decide_eq_true_eq]
    generalize t / (d / 2.0) = x at *
    by_cases hfirst : x < 1.0
    · obtain ⟨hlow, hhigh⟩ := first_half_mem hx hfirst
      have hroot : 0 ≤ 1.0 - x * x := one_sub_sq_nonneg (by linarith) hhigh
      simp only [hfirst, if_true, sqrt_given hroot, sqrt_within _ hroot]
      exact agree_ok _
    · obtain ⟨hlow, hhigh⟩ := second_half_mem hx hfirst
      rw [decimal_one] at hlow hhigh
      have htwo : (2.0 : K) = 2 := by norm_num
      have hroot : 0 ≤ 1.0 - (x - 2.0) * (x - 2.0) := by
        rw [htwo]
        exact one_sub_sq_nonneg (by linarith) (by linarith)
      simp only [hfirst, if_false, sqrt_given hroot, sqrt_within _ hroot]
      exact agree_ok _

theorem agree_expo (direction : Direction) (ht : 0 ≤ t) (htd : t ≤ d) (hd : 0 < d) :
    Agree fun S => @value K S (.curve .expo direction) t b c d := by
  have hunit := unit_mem ht htd hd
  cases direction with
  | easeIn =>
    simp only [Agree, value, expoIn, quotient_of_ne hd.ne', quotient_within _ _ hd.ne',
      exp2_within _ (rising_mem hunit), bind, Except.bind, pure, Except.pure, eq, exp2_given,
      decide_eq_true_eq]
    split_ifs <;> exact agree_ok _
  | easeOut =>
    have hexponent : -10.0 * t / d ∈ Icc (-10) 0 := by
      rw [mul_div_assoc]
      exact falling_mem hunit
    simp only [Agree, value, expoOut, quotient_of_ne hd.ne', quotient_within _ _ hd.ne',
      exp2_within _ hexponent, bind, Except.bind, pure, Except.pure, eq, exp2_given,
      decide_eq_true_eq]
    split_ifs <;> exact agree_ok _
  | easeInOut =>
    have hx := half_mem ht htd hd
    simp only [Agree, value, expoInOut, quotient_of_ne (half_ne hd),
      quotient_within _ _ (half_ne hd), div_within _ _ decimal_two_ne, bind, Except.bind, pure,
      Except.pure, lt, eq, exp2_given, decide_eq_true_eq]
    generalize t / (d / 2.0) = x at *
    by_cases hfirst : x < 1.0
    · have hexponent := rising_mem (first_half_mem hx hfirst)
      simp only [hfirst, if_true, exp2_within _ hexponent]
      split_ifs <;> exact agree_ok _
    · have hexponent := falling_mem (second_half_mem hx hfirst)
      simp only [hfirst, if_false, exp2_within _ hexponent]
      split_ifs <;> exact agree_ok _

theorem swing_given (hp : p ≠ 0) :
    @swing K given t d p =
      .ok (HasElementary.elementary.sin
        ((t * d - p / 4.0) * (2.0 * HasElementary.elementary.pi) / p)) := by
  simp only [swing, quotient_of_ne hp, bind, Except.bind, sin, pi]

theorem swing_within (e : Elsewhere K) (hp : p ≠ 0) :
    @swing K (within e) t d p = @swing K given t d p := by
  have hfour : (4.0 : K) ≠ 0 := by norm_num
  simp only [swing, quotient_of_ne hp, quotient_within _ _ hp, div_within _ _ hfour, bind,
    Except.bind, sin, pi]

theorem agree_elastic (direction : Direction) (ht : 0 ≤ t) (htd : t ≤ d) (hd : 0 < d) :
    Agree fun S => @value K S (.curve .elastic direction) t b c d := by
  have hperiod : d * 0.3 ≠ 0 := mul_ne_zero hd.ne' (by norm_num)
  have hperiod' : d * (0.3 * 1.5) ≠ 0 := mul_ne_zero hd.ne' (by norm_num)
  have hunit := unit_mem ht htd hd
  cases direction with
  | easeIn =>
    simp only [Agree, value, elasticIn, springPeriod, quotient_of_ne hd.ne',
      quotient_within _ _ hd.ne', swing_within _ hperiod, swing_given hperiod, exp2_given,
      exp2_within _ (rising_mem hunit), bind, Except.bind, pure, Except.pure, eq,
      decide_eq_true_eq]
    split_ifs <;> exact agree_ok _
  | easeOut =>
    simp only [Agree, value, elasticOut, springPeriod, quotient_of_ne hd.ne',
      quotient_within _ _ hd.ne', swing_within _ hperiod, swing_given hperiod, exp2_given,
      exp2_within _ (falling_mem hunit), bind, Except.bind, pure, Except.pure, eq,
      decide_eq_true_eq]
    split_ifs <;> exact agree_ok _
  | easeInOut =>
    have hx := half_mem ht htd hd
    simp only [Agree, value, elasticInOut, springPeriod, quotient_of_ne (half_ne hd),
      quotient_within _ _ (half_ne hd), swing_within _ hperiod', swing_given hperiod',
      div_within _ _ decimal_two_ne, bind, Except.bind, pure, Except.pure, lt, eq, exp2_given,
      decide_eq_true_eq]
    generalize t / (d / 2.0) = x at *
    -- here the halves of a segment are told by the sign of the time after its middle
    have hneg : x - 1.0 < 0.0 ↔ x < 1.0 := by norm_num
    simp only [hneg]
    by_cases hfirst : x < 1.0
    · have hexponent := rising_mem (first_half_mem hx hfirst)
      simp only [hfirst, if_true, exp2_within _ hexponent]
      split_ifs <;> exact agree_ok _
    · have hexponent := falling_mem (second_half_mem hx hfirst)
      simp only [hfirst, if_false, exp2_within _ hexponent]
      split_ifs <;> exact agree_ok _

/-- **No curve leaves the domain of the operations.** -/
theorem agree_value (f : Easing) (ht : 0 ≤ t) (htd : t ≤ d) (hd : 0 < d) :
    Agree fun S => @value K S f t b c d := by
  cases f with
  | straight => exact agree_polynomial rfl hd
  | curve family direction =>
    cases family
    case sine => exact agree_sine direction hd
    case circ => exact agree_circ direction ht htd hd
    case expo => exact agree_expo direction ht htd hd
    case elastic => exact agree_elastic direction ht htd hd
    case back => cases direction <;> exact agree_polynomial rfl hd
    all_goals exact agree_polynomial rfl hd

end Easing

end Orchestrion

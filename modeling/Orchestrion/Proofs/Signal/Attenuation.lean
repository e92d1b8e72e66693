import Orchestrion.Instrument
import Orchestrion.Proofs.Context
import Orchestrion.Proofs.Easing.Shape
import Mathlib.Analysis.Convex.Basic

set_option autoImplicit false

/-!
# Modulators only attenuate

Without rounding, a modulator whose value and depth lie between zero and one takes away a
part of the carrier's value, and never more than all of it.  A waveform within its range
is such a modulator, and so is an envelope whose phases lie between zero and one at both
ends and follow bounded curves, wherever its phases begin and end.  So an instrument
keeps the sign of its carrier and does not become louder than it.
-/

namespace Orchestrion

open Set (Icc)
open Scalar (HasElementary)

variable {K : Type} [Field K] [LinearOrder K] [IsStrictOrderedRing K] [HasElementary K]

attribute [local instance] Scalar.given

-- what is written with signs is meant in the field
attribute [local instance (low)] Scalar.toAdd Scalar.toSub Scalar.toMul Scalar.toDiv
  Scalar.toNeg Scalar.toOfScientific

/-- Whether a result is there, with no value or one between zero and one. -/
def IsShare {ε : Type} (r : Except ε (Option K)) : Prop :=
  ∃ value?, r = .ok value? ∧ ∀ x ∈ value?, x ∈ Icc (0 : K) 1

omit [HasElementary K] [IsStrictOrderedRing K] in
theorem isShare_none {ε : Type} : IsShare (.ok none : Except ε (Option K)) :=
  ⟨none, rfl, nofun⟩

omit [HasElementary K] [IsStrictOrderedRing K] in
theorem isShare_some {ε : Type} {x : K} (h : x ∈ Icc (0 : K) 1) :
    IsShare (.ok (some x) : Except ε (Option K)) := by
  refine ⟨some x, rfl, ?_⟩
  rintro y ⟨⟩
  exact h

/-! ## Envelopes -/

/-- Whether a phase lies between zero and one at both ends, on a curve between them. -/
structure Phase.IsBounded (p : Phase K) : Prop where
  start : p.startVal ∈ Icc (0 : K) 1
  finish : p.startVal + p.deltaVal ∈ Icc (0 : K) 1
  family : p.easing.family ∈ Easing.boundedFamilies

namespace Phase

variable {p : Phase K}

/-- In its window a bounded phase has a value between zero and one. -/
theorem IsBounded.exists_valueIn (h : p.IsBounded) {first last sample : Int}
    (hfirst : first ≤ sample) (hlast : sample ≤ last) :
    ∃ v ∈ Icc (0 : K) 1, p.valueIn first last sample = .ok v := by
  unfold valueIn
  split_ifs with hempty
  · exact ⟨_, h.finish, rfl⟩
  · have ht : (0 : K) ≤ ((sample - first : ℤ) : K) := Int.cast_nonneg (by omega)
    have htd : ((sample - first : ℤ) : K) ≤ ((last - first : ℤ) : K) := Int.cast_le.mpr (by omega)
    have hd : (0 : K) < ((last - first : ℤ) : K) := Int.cast_pos.mpr (by omega)
    obtain ⟨x, ⟨hpos, hle⟩, hvalue⟩ :=
      Easing.exists_value h.family ht htd hd p.startVal p.deltaVal
    refine ⟨p.startVal + p.deltaVal * x, ?_, hvalue⟩
    have hmix := convex_Icc (0 : K) 1 h.start h.finish (sub_nonneg.mpr hle) hpos
      (sub_add_cancel 1 x)
    have hcombination : (1 - x) • p.startVal + x • (p.startVal + p.deltaVal) =
        p.startVal + p.deltaVal * x := by
      simp only [smul_eq_mul]
      ring
    rwa [hcombination] at hmix

/-- Whatever its window is. -/
theorem IsBounded.isShare_valueAt (h : p.IsBounded) (sample : Int) (duration : K) :
    IsShare (p.valueAt sample duration) := by
  unfold valueAt Span.window
  simp only [Scalar.truncate, bind, Except.bind, pure, Except.pure]
  split_ifs with hinside
  · obtain ⟨v, hv, hvalue⟩ := h.exists_valueIn hinside.1 hinside.2
    rw [hvalue]
    exact isShare_some hv
  · exact isShare_none

end Phase

namespace Envelope

theorem isShare_scan {phases : List (Phase K)} (h : ∀ p ∈ phases, p.IsBounded) (sample : Int)
    (duration : K) {value : Option K} (hvalue : ∀ x ∈ value, x ∈ Icc (0 : K) 1) :
    IsShare (scan sample duration value phases) := by
  induction phases generalizing value with
  | nil => exact ⟨value, rfl, hvalue⟩
  | cons p rest ih =>
    obtain ⟨hp, hrest⟩ := List.forall_mem_cons.mp h
    obtain ⟨found, hfound, hshare⟩ := hp.isShare_valueAt sample duration
    rw [scan, hfound]
    cases found with
    | none => exact ih hrest hvalue
    | some v => exact ih hrest hshare

end Envelope

/-! ## Modulators -/

/-- Whether a source is within its range at an instant: a waveform by its value, if it has
one, and an envelope by its phases.  A bank gives no value to a modulator. -/
def Source.IsBounded (ctx : Context K) : Source K → Prop
  | .waveform w => ∀ x, w.formula.eval ctx = .ok x → x ∈ Icc (-1 : K) 1
  | .envelope e => ∀ p ∈ e.phases, p.IsBounded
  | .bank _ => True

variable {ctx : Context K}

theorem Waveform.isShare_modulation {w : Waveform}
    (h : ∀ x, w.formula.eval ctx = .ok x → x ∈ Icc (-1 : K) 1) {ε : Type} :
    IsShare (.ok (w.modulation ctx) : Except ε (Option K)) := by
  have htwo : (2.0 : K) = 2 := by norm_num
  rw [modulation, carrier]
  cases hx : w.formula.eval ctx with
  | error fault => exact isShare_none
  | ok x =>
    obtain ⟨hlow, hhigh⟩ := h x hx
    refine isShare_some ⟨?_, ?_⟩
    · rw [Scalar.decimal_one, htwo]
      linarith
    · rw [Scalar.decimal_one, htwo]
      linarith

section

variable {sample duration : K} (hsample : ctx.get? Context.sampleName = some sample)
  (hduration : ctx.get? Context.durationName = some duration)

include hsample hduration

theorem Envelope.isShare_modulation {e : Envelope K} (h : ∀ p ∈ e.phases, p.IsBounded) :
    IsShare (e.modulation ctx) := by
  obtain ⟨k, hk⟩ : ∃ k, Scalar.truncate sample = .ok k := ⟨_, rfl⟩
  have hnone : ∀ x ∈ (none : Option K), x ∈ Icc (0 : K) 1 := nofun
  obtain ⟨value?, hvalue, hshare⟩ := isShare_scan h k duration hnone
  have hvalueAt : e.valueAt k duration = .ok value? := hvalue
  simp only [modulation, hsample, hduration, hk, computed, hvalueAt]
  cases value? with
  | none => exact isShare_none
  | some v =>
    obtain ⟨hlow, hhigh⟩ := hshare v rfl
    refine isShare_some ?_
    rw [Scalar.decimal_one]
    exact ⟨sub_nonneg.mpr hhigh, sub_le_self 1 hlow⟩

theorem Source.IsBounded.isShare_modulation {src : Source K} (h : src.IsBounded ctx) :
    IsShare (src.modulation ctx) := by
  cases src with
  | waveform w => exact Waveform.isShare_modulation h
  | envelope e => exact Envelope.isShare_modulation hsample hduration h
  | bank slot => exact isShare_none

/-- Modulators leave a share of any value. -/
theorem Instrument.exists_modulate {modulators : List (Modulator K)}
    (h : ∀ m ∈ modulators, m.depth ∈ Icc (0 : K) 1 ∧ m.source.IsBounded ctx) :
    ∃ share ∈ Icc (0 : K) 1, ∀ value, modulate ctx value modulators = .ok (value * share) := by
  induction modulators with
  | nil => exact ⟨1, ⟨zero_le_one, le_rfl⟩, fun value => by rw [modulate, mul_one]⟩
  | cons m rest ih =>
    obtain ⟨⟨⟨hdepth, hdepth'⟩, hsource⟩, hrest⟩ := List.forall_mem_cons.mp h
    obtain ⟨share, hshare, hvalue⟩ := ih hrest
    obtain ⟨x?, hx?, hx⟩ := hsource.isShare_modulation hsample hduration
    cases x? with
    | none => exact ⟨share, hshare, fun value => by rw [modulate, hx?]; exact hvalue value⟩
    | some x =>
      obtain ⟨hlow, hhigh⟩ := hx x rfl
      have hleft : 1 - x * m.depth ∈ Icc (0 : K) 1 :=
        ⟨sub_nonneg.mpr (mul_le_one₀ hhigh hdepth hdepth'),
          sub_le_self 1 (mul_nonneg hlow hdepth)⟩
      refine ⟨(1 - x * m.depth) * share,
        ⟨mul_nonneg hleft.1 hshare.1, mul_le_one₀ hleft.2 hshare.1 hshare.2⟩, fun value => ?_⟩
      rw [modulate, hx?]
      simp only [hvalue, Scalar.decimal_one, mul_assoc]

end

/-! ## Instruments -/

omit [HasElementary K] in
/-- A share of a value has its sign and is not greater. -/
theorem attenuated_of_share {share : K} (h : share ∈ Icc (0 : K) 1) (value : K) :
    (0 ≤ value → 0 ≤ value * share) ∧ (value ≤ 0 → value * share ≤ 0) ∧
      |value * share| ≤ |value| := by
  obtain ⟨hlow, hhigh⟩ := h
  refine ⟨fun hpos => mul_nonneg hpos hlow, fun hneg => mul_nonpos_of_nonpos_of_nonneg hneg hlow,
    ?_⟩
  rw [abs_mul, abs_of_nonneg hlow]
  exact mul_le_of_le_one_right (abs_nonneg value) hhigh

theorem withinSingle_iff_abs_le {x : K} :
    Scalar.withinSingle x = true ↔ |x| ≤ Scalar.singleMax := by
  rw [Scalar.withinSingle, Bool.and_eq_true, abs_le]
  exact and_congr decide_eq_true_iff decide_eq_true_iff

/-- **Modulators only attenuate.**  Let an instrument be played at an instant at which the
depths of its modulators are between zero and one and their sources within their range.
Every modulator then has no value, or one between zero and one.  Where the carrier has a
value, what becomes of it has its sign, or is zero, and is not greater; and single
precision can hold it if it can hold the carrier's value. -/
theorem Instrument.sample_attenuated {i : Instrument K} {sample duration : K}
    (hsample : ctx.get? Context.sampleName = some sample)
    (hduration : ctx.get? Context.durationName = some duration)
    (h : ∀ m ∈ i.modulators, m.depth ∈ Icc (0 : K) 1 ∧ m.source.IsBounded ctx) :
    (∀ m ∈ i.modulators, ∃ x?, m.source.modulation ctx = .ok x? ∧ ∀ x ∈ x?, 0 ≤ x ∧ x ≤ 1) ∧
    ∀ (st st' : Stage K) (value : K), i.carrier.carrier ctx st = (.ok (some value), st') →
      ∃ y?, i.sample ctx st = (.ok y?, st') ∧
        (∀ y ∈ y?, (0 ≤ value → 0 ≤ y) ∧ (value ≤ 0 → y ≤ 0) ∧ |y| ≤ |value|) ∧
        (Scalar.withinSingle value = true → ∃ y, y? = some y) := by
  refine ⟨fun m hm => (h m hm).2.isShare_modulation hsample hduration, ?_⟩
  intro st st' value hcarrier
  obtain ⟨share, hshare, hmodulate⟩ := exists_modulate hsample hduration h
  have hattenuated := attenuated_of_share hshare value
  refine ⟨_, by rw [Instrument.sample, hcarrier]; simp only [shape, hmodulate]; rfl, ?_, ?_⟩
  · intro y hy
    split at hy
    · cases hy
      exact hattenuated
    · cases hy
  · intro hwithin
    have hwithin' : Scalar.withinSingle (value * share) = true :=
      withinSingle_iff_abs_le.mpr (hattenuated.2.2.trans (withinSingle_iff_abs_le.mp hwithin))
    exact ⟨_, if_pos hwithin'⟩

/-! ## An instrument that fades -/

attribute [local instance] Scalar.HasElementary.real

/-- An instrument with a waveform and an envelope as modulators.  The first phase of the
envelope runs backwards and has no window; the second begins before the note and ends
after it. -/
noncomputable def fading : Instrument ℝ where
  name := .ofText "i"
  program := 0
  percussion := false
  carrier := .waveform ⟨.text "w", "0.5", .number ⟨5, -1⟩⟩
  modulators := [⟨.waveform ⟨.text "v", "x", .name "x"⟩, 1⟩,
    ⟨.envelope ⟨.text "e", [⟨⟨1, 0, 1, -1⟩, .curve .quad .easeInOut⟩,
      ⟨⟨-1, 1 + 1, 0, 1⟩, .curve .bounce .easeOut⟩]⟩, 1⟩]

theorem sample_attenuated_fading :
    let ctx : Context ℝ := [(Context.durationName, 10), (Context.sampleName, 4), ("x", -1)]
    (∀ m ∈ fading.modulators, m.depth ∈ Icc (0 : ℝ) 1 ∧ m.source.IsBounded ctx) ∧
      ∀ st, ∃ y, fading.sample ctx st = (.ok (some y), st) ∧ 0 ≤ y ∧ y ≤ 2⁻¹ := by
  intro ctx
  have hmodulators :
      ∀ m ∈ fading.modulators, m.depth ∈ Icc (0 : ℝ) 1 ∧ m.source.IsBounded ctx := by
    refine List.forall_mem_cons.mpr ⟨⟨⟨zero_le_one, le_rfl⟩, ?_⟩,
      List.forall_mem_singleton.mpr ⟨⟨zero_le_one, le_rfl⟩, ?_⟩⟩
    · intro x hx
      cases hx
      exact ⟨le_rfl, by norm_num⟩
    · refine List.forall_mem_cons.mpr ⟨⟨⟨?_, ?_⟩, ⟨?_, ?_⟩, by decide⟩,
        List.forall_mem_singleton.mpr ⟨⟨?_, ?_⟩, ⟨?_, ?_⟩, by decide⟩⟩ <;> norm_num
  have hnumeral : (⟨5, -1⟩ : Decimal).toScalar = (2⁻¹ : ℝ) := by norm_num [Decimal.toScalar]
  have hcarrier (st : Stage ℝ) : fading.carrier.carrier ctx st = (.ok (some 2⁻¹), st) := by
    simp only [fading, Source.carrier, Waveform.carrier, Formula.Expr.eval, hnumeral]
  have hwithin : Scalar.withinSingle (2⁻¹ : ℝ) = true := by
    norm_num [Scalar.withinSingle, Scalar.singleMax, Scalar.le]
  have hsample : ctx.get? Context.sampleName = some 4 := rfl
  have hduration : ctx.get? Context.durationName = some 10 := rfl
  obtain ⟨_, hsamples⟩ := Instrument.sample_attenuated hsample hduration hmodulators
  refine ⟨hmodulators, fun st => ?_⟩
  obtain ⟨y?, hy?, hbounds, hheld⟩ := hsamples st st 2⁻¹ (hcarrier st)
  obtain ⟨y, rfl⟩ := hheld hwithin
  obtain ⟨hpos, _, hle⟩ := hbounds y rfl
  have hy : 0 ≤ y := hpos (by norm_num)
  rw [abs_of_nonneg hy, abs_of_nonneg (by norm_num)] at hle
  exact ⟨y, hy?, hy, hle⟩

end Orchestrion

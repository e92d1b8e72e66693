import Orchestrion.Proofs.Binary64.Integers
import Orchestrion.Proofs.Easing.Domain
import Orchestrion.Proofs.Signal.Attenuation

set_option autoImplicit false

/-!
# Envelopes stay in the domain of their curves

What a phase asks its curve for is a whole number of samples since its first, of the whole
number of samples to its last: both ends of a window are moved into the note, the sample is
told to lie between them, and a window of one sample is not left to the curve.  So the
value of an envelope does not depend on what curves are outside of their segments
(`Envelope.valueBy_eq`), and between its ends each curve has a value that does not depend
on what the operations give where they are not defined.
-/

namespace Orchestrion

variable {α : Type} [Scalar α]

/-! ## Envelopes over other curves -/

namespace Phase

/-- The value of a phase at a sample of its window, with `curve` for the catalog. -/
def valueInBy (curve : Easing → (t b c d : α) → Except ArithFault α) (p : Phase α)
    (first last sample : Int) : Except ArithFault α :=
  if last - first = 0 then .ok p.endVal
  else do
    let t ← Scalar.ofInt (sample - first)
    let d ← Scalar.ofInt (last - first)
    curve p.easing t p.startVal p.deltaVal d

/-- The value of a phase at a sample, if the sample lies in its window. -/
def valueBy (curve : Easing → (t b c d : α) → Except ArithFault α) (p : Phase α)
    (sample : Int) (duration : α) : Except ArithFault (Option α) := do
  let (first, last) ← p.window duration
  if first ≤ sample ∧ sample ≤ last then some <$> p.valueInBy curve first last sample
  else return none

theorem valueBy_value (p : Phase α) (sample : Int) (duration : α) :
    p.valueBy Easing.value sample duration = p.valueAt sample duration := by
  rw [valueBy, valueAt]
  cases p.window duration with
  | error fault => rfl
  | ok window =>
    obtain ⟨first, last⟩ := window
    have hvalueIn : p.valueInBy Easing.value first last sample = p.valueIn first last sample := rfl
    simp only [bind, Except.bind, hvalueIn]
    split_ifs with hinside
    · cases p.valueIn first last sample with
      | error fault => rfl
      | ok v => rfl
    · rfl

end Phase

namespace Envelope

/-- The value of the last phase that has one at a sample, with `curve` for the catalog. -/
def valueBy (curve : Easing → (t b c d : α) → Except ArithFault α) (e : Envelope α)
    (sample : Int) (duration : α) : Except ArithFault (Option α) :=
  e.phases.foldlM (fun value p => do
    let found ← p.valueBy curve sample duration
    return found.or value) none

theorem valueBy_value (e : Envelope α) (sample : Int) (duration : α) :
    e.valueBy Easing.value sample duration = e.valueAt sample duration := by
  rw [valueBy, valueAt]
  generalize (none : Option α) = value
  induction e.phases generalizing value with
  | nil => rfl
  | cons p rest ih =>
    rw [scan, List.foldlM_cons, p.valueBy_value]
    cases p.valueAt sample duration with
    | error fault => rfl
    | ok found =>
      cases found with
      | none => exact ih value
      | some v => exact ih (some v)

end Envelope

/-! ## What a curve is asked for -/

section

open Scalar (Faithful KeepsIntegers)

variable [Faithful α]

/-- Whether a time and a length are whole, the time between zero and the length, and the
length not zero. -/
def InSegment (t d : α) : Prop :=
  ∃ j k : ℤ, Faithful.value t = some ↑(j : ℝ) ∧ Faithful.value d = some ↑(k : ℝ) ∧
    0 ≤ j ∧ j ≤ k ∧ 1 ≤ k

theorem inSegment_of_window [KeepsIntegers α] {first last sample : Int} {t d : α}
    (hfirst : first ≤ sample) (hlast : sample ≤ last) (hne : last - first ≠ 0)
    (ht : Scalar.ofInt (sample - first) = .ok t) (hd : Scalar.ofInt (last - first) = .ok d) :
    InSegment t d := by
  obtain ⟨j, hj, hpos, -⟩ := KeepsIntegers.exists_value_ofInt _ t ht
  obtain ⟨k, hk, -, hone⟩ := KeepsIntegers.exists_value_ofInt _ d hd
  have hle : j ≤ k := KeepsIntegers.ofInt_mono _ _ t d j k (by omega) ht hd hj hk
  exact ⟨j, k, hj, hk, hpos (by omega), hle, hone (by omega)⟩

variable [KeepsIntegers α] {curve curve' : Easing → (t b c d : α) → Except ArithFault α}

section

variable (h : ∀ f t b c d, InSegment t d → curve f t b c d = curve' f t b c d)

include h

theorem Phase.valueInBy_congr (p : Phase α) {first last sample : Int} (hfirst : first ≤ sample)
    (hlast : sample ≤ last) :
    p.valueInBy curve first last sample = p.valueInBy curve' first last sample := by
  unfold valueInBy
  split_ifs with hempty
  · rfl
  · cases ht : (Scalar.ofInt (sample - first) : Except ArithFault α) with
    | error fault => rfl
    | ok t =>
      cases hd : (Scalar.ofInt (last - first) : Except ArithFault α) with
      | error fault => rfl
      | ok d => exact h _ t _ _ d (inSegment_of_window hfirst hlast hempty ht hd)

/-- Curves that are the same in their segments make no difference to a phase. -/
theorem Phase.valueBy_congr (p : Phase α) (sample : Int) (duration : α) :
    p.valueBy curve sample duration = p.valueBy curve' sample duration := by
  rw [valueBy, valueBy]
  congr 1
  funext window
  obtain ⟨first, last⟩ := window
  dsimp only
  split_ifs with hinside
  · exact congrArg (some <$> ·) (p.valueInBy_congr h hinside.1 hinside.2)
  · rfl

theorem Envelope.valueBy_congr (e : Envelope α) (sample : Int) (duration : α) :
    e.valueBy curve sample duration = e.valueBy curve' sample duration := by
  simp only [valueBy, Phase.valueBy_congr h]

end

open Scalar in
/-- **An envelope stays in the domain of its curves.**  Whatever the phases of an envelope,
the sample and the duration are, curves other than those of the catalog give the same value,
or the same fault, if they are the same for whole times between zero and a whole length of
at least one: those are all that a curve is asked for.  And in exact arithmetic each curve
has a value between the ends of a segment, which depends neither on what a quotient by zero
or the root of a negative number is, nor on powers of two with exponents that are not
between minus ten and zero. -/
theorem Envelope.stays_in_domain :
    (∀ curve : Easing → (t b c d : α) → Except ArithFault α,
      (∀ f t b c d, InSegment t d → curve f t b c d = f.value t b c d) →
      ∀ (e : Envelope α) (sample : Int) (duration : α),
        e.valueBy curve sample duration = e.valueAt sample duration) ∧
    ∀ {K : Type} [Field K] [LinearOrder K] [IsStrictOrderedRing K] [HasElementary K]
      (f : Easing) (t b c d : K), 0 ≤ t → t ≤ d → 1 ≤ d →
      ∃ v, @Easing.value K given f t b c d = .ok v ∧
        ∀ e : Elsewhere K, @Easing.value K (within e) f t b c d = .ok v := by
  constructor
  · intro curve h e sample duration
    rw [e.valueBy_congr h, e.valueBy_value]
  · intro K _ _ _ _ f t b c d ht htd hd
    exact Easing.agree_value f ht htd (one_pos.trans_le hd)

end

/-! ## Curves that refuse what is outside of their segments -/

open Classical in
/-- The catalog of curves, which have no value outside of their segments. -/
noncomputable def strict (f : Easing) (t b c d : Float) : Except ArithFault Float :=
  if InSegment t d then f.value t b c d else .error .domain

/-- Four phases: one runs backwards, one begins before the note and ends after it, one is
over before the note begins, and one has no length. -/
def unruly : Envelope Float where
  name := .text "e"
  phases := [⟨⟨1.0, 0.5, 1.0, -1.0⟩, .curve .circ .easeIn⟩,
    ⟨⟨-0.5, 2.0, 0.0, 1.0⟩, .curve .expo .easeInOut⟩,
    ⟨⟨-2.0, -1.0, 0.0, 1.0⟩, .curve .elastic .easeOut⟩,
    ⟨⟨0.5, 0.5, 1.0, 0.0⟩, .curve .circ .easeOut⟩]

/-- None of its phases asks a strict curve for what it refuses; a circle takes the root of
zero at the end of its segment. -/
theorem stays_in_domain_unruly :
    (∀ sample, unruly.valueBy strict sample 10.0 = unruly.valueAt sample 10.0) ∧
      ∀ e : Scalar.Elsewhere ℝ,
        @Easing.value ℝ (@Scalar.within ℝ _ _ .real e) (.curve .circ .easeIn) 5 0 1 5 = .ok 1 := by
  have hstrict : ∀ f t b c d, InSegment t d → strict f t b c d = f.value t b c d :=
    fun f t b c d hsegment => if_pos hsegment
  obtain ⟨henvelope, hcurve⟩ := Envelope.stays_in_domain (α := Float)
  refine ⟨fun sample => henvelope strict hstrict unruly sample 10.0, ?_⟩
  let := Scalar.HasElementary.real
  obtain ⟨v, hvalue, hwithin⟩ :=
    hcurve (K := ℝ) (.curve .circ .easeIn) 5 0 1 5 (by norm_num) le_rfl (by norm_num)
  have hlength : (5 : ℝ) ≠ 0 := by norm_num
  have hroot : (0 : ℝ) ≤ 1.0 - 5 / 5 * (5 / 5) := by norm_num
  have hzero : Scalar.HasElementary.elementary.root (0 : ℝ) = 0 := Real.sqrt_zero
  have hend : @Easing.value ℝ Scalar.given (.curve .circ .easeIn) 5 0 1 5 = .ok 1 := by
    simp only [Easing.value, Easing.circIn, Scalar.quotient_of_ne hlength,
      Scalar.sqrt_given hroot, bind, Except.bind, pure, Except.pure]
    norm_num [hzero]
  rw [hend] at hvalue
  cases hvalue
  exact hwithin

end Orchestrion

import Mathlib.Topology.Algebra.Order.Field
import Orchestrion.Proofs.Easing.Symmetry

set_option autoImplicit false

/-!
# Curves that do not turn back, and curves that do not jump

Without rounding, a power of the time rises over the unit interval, and so it does turned
around or joined to itself: where the halves meet, the first has come half of the way and the
second goes on from there.  A curve of such a shape goes from one end of its segment to the
other and never back.  The bounces do turn back, but they do not jump: where one parabola ends
the next one begins, at one.
-/

namespace Orchestrion.Easing

open Scalar
open Set (MapsTo Icc)

variable {K : Type} [Field K] [LinearOrder K] [IsStrictOrderedRing K] {f : K → K}

/-! ## Shapes that rise -/

/-- A shape that stays between zero and one and does not turn back. -/
structure Rises (f : K → K) : Prop where
  mapsTo : MapsTo f (Icc 0 1) (Icc 0 1)
  monotoneOn : MonotoneOn f (Icc 0 1)

omit [IsStrictOrderedRing K] in
theorem rises_id : Rises (id : K → K) := ⟨Set.mapsTo_id _, monotone_id.monotoneOn _⟩

theorem rises_pow (n : Nat) : Rises (· ^ n : K → K) where
  mapsTo := mapsTo_pow n
  monotoneOn _ hx _ _ hxy := pow_le_pow_left₀ hx.1 hxy n

theorem Rises.mirrored (h : Rises f) : Rises (mirrored f) where
  mapsTo := mapsTo_mirrored h.mapsTo
  monotoneOn := by
    rintro x ⟨hx, hx'⟩ y ⟨hy, hy'⟩ hxy
    have hturned : f (1 - y) ≤ f (1 - x) :=
      h.monotoneOn ⟨sub_nonneg.mpr hy', sub_le_self 1 hy⟩ ⟨sub_nonneg.mpr hx', sub_le_self 1 hx⟩
        (sub_le_sub_left hxy 1)
    exact sub_le_sub_left hturned 1

/-- What happens in the first half stays below the middle, and what happens in the second
above it. -/
theorem Rises.joined (h : Rises f) : Rises (joined f) where
  mapsTo := mapsTo_joined h.mapsTo
  monotoneOn := by
    rintro x ⟨hx, hx'⟩ y ⟨hy, hy'⟩ hxy
    simp only [Easing.joined]
    split_ifs with hfirst hfirst' hfirst'
    · have hle : f (x + x) ≤ f (y + y) :=
        h.monotoneOn ⟨by linarith, hfirst.le⟩ ⟨by linarith, hfirst'.le⟩ (by linarith)
      linarith
    · have hlow : f (x + x) ≤ 1 := (h.mapsTo ⟨by linarith, hfirst.le⟩).2
      have hhigh : f (1 - y + (1 - y)) ≤ 1 := (h.mapsTo ⟨by linarith, by linarith⟩).2
      linarith
    · linarith
    · have hle : f (1 - y + (1 - y)) ≤ f (1 - x + (1 - x)) :=
        h.monotoneOn ⟨by linarith, by linarith⟩ ⟨by linarith, by linarith⟩ (by linarith)
      linarith

/-- The families whose curves do not turn back. -/
def risingFamilies : List Family := [.linear, .quad, .cubic, .quart, .quint]

theorem exists_start_rising {family : Family} (h : family ∈ risingFamilies)
    (direction : Direction) : ∃ f : K → K, start family direction = some f ∧ Rises f := by
  cases family
  case linear => exact ⟨_, rfl, rises_id⟩
  case quad => exact ⟨_, rfl, rises_pow 2⟩
  case cubic => exact ⟨_, rfl, rises_pow 3⟩
  case quart => exact ⟨_, rfl, rises_pow 4⟩
  case quint => exact ⟨_, rfl, rises_pow 5⟩
  all_goals exact absurd h (by decide)

theorem exists_shape_rising {e : Easing} (h : e.family ∈ risingFamilies) :
    ∃ f : K → K, e.shape = some f ∧ Rises f := by
  cases e with
  | straight => exact ⟨id, rfl, rises_id⟩
  | curve family direction =>
    obtain ⟨f, hstart, hf⟩ : ∃ f : K → K, start family direction = some f ∧ Rises f :=
      exists_start_rising h direction
    refine ⟨direction.place f, by rw [shape, hstart]; rfl, ?_⟩
    cases direction with
    | easeIn => exact hf
    | easeOut => exact hf.mirrored
    | easeInOut => exact hf.joined

/-! ## Shapes that do not jump -/

section

variable [TopologicalSpace K] [OrderTopology K]

omit [Field K] [IsStrictOrderedRing K] in
/-- Two pieces that agree where they meet. -/
theorem continuous_pieces {g p q : K → K} {a : K} (hg : Continuous g) (hp : Continuous p)
    (hq : Continuous q) (h : ∀ x, g x = a → p x = q x) :
    Continuous fun x => if g x < a then p x else q x := by
  have hpieces : Continuous fun x => if a ≤ g x then q x else p x :=
    hq.if_le hp continuous_const hg fun x hx => (h x hx.symm).symm
  refine hpieces.congr fun x => ?_
  by_cases hx : g x < a
  · rw [if_pos hx, if_neg hx.not_ge]
  · rw [if_neg hx, if_pos (not_lt.mp hx)]

theorem continuous_mirrored (h : Continuous f) : Continuous (mirrored f) :=
  continuous_const.sub (h.comp (continuous_const.sub continuous_id))

/-- The halves meet in the middle if the shape comes to one. -/
theorem continuous_joined (h : Continuous f) (hone : f 1 = 1) : Continuous (joined f) := by
  have hfirst : Continuous fun x => f (x + x) / (1 + 1) :=
    (h.comp (continuous_id.add continuous_id)).div_const _
  have hsecond : Continuous fun x => 1 - f (1 - x + (1 - x)) / (1 + 1) := by
    have hrest : Continuous fun x : K => 1 - x := continuous_const.sub continuous_id
    exact continuous_const.sub ((h.comp (hrest.add hrest)).div_const _)
  refine continuous_pieces (continuous_id.add continuous_id) hfirst hsecond fun x hx => ?_
  have hrest : 1 - x + (1 - x) = 1 := by linear_combination -hx
  rw [hx, hrest, hone]
  norm_num

theorem continuous_parabola (s m y : K) : Continuous fun x => s * (x - m) ^ 2 + y :=
  (continuous_const.mul ((continuous_id.sub continuous_const).pow 2)).add continuous_const

theorem continuous_rebounds : Continuous (rebounds : K → K) := by
  have hfirst : Continuous fun x : K => 121 / 16 * x ^ 2 :=
    continuous_const.mul (continuous_id.pow 2)
  refine continuous_pieces continuous_id hfirst ?_ ?_
  · refine continuous_pieces continuous_id (continuous_parabola _ _ _) ?_ ?_
    · refine continuous_pieces continuous_id (continuous_parabola _ _ _)
        (continuous_parabola _ _ _) ?_
      rintro x rfl
      norm_num
    · rintro x rfl
      norm_num
  · rintro x rfl
    norm_num

theorem continuous_start {family : Family} (h : family ∈ boundedFamilies) {direction : Direction}
    (hstart : start family direction = some f) : Continuous f := by
  cases family
  case linear => cases hstart; exact continuous_id
  case quad | cubic | quart | quint => cases hstart; exact continuous_pow _
  case bounce => cases hstart; exact continuous_mirrored continuous_rebounds
  all_goals exact absurd h (by decide)

theorem continuous_shape {e : Easing} (h : e.family ∈ boundedFamilies) (hshape : e.shape = some f) :
    Continuous f := by
  cases e with
  | straight =>
    cases hshape
    exact continuous_id
  | curve family direction =>
    obtain ⟨g, hstart, rfl⟩ := Option.map_eq_some_iff.mp hshape
    have hg : Continuous g := continuous_start h hstart
    cases direction with
    | easeIn => exact hg
    | easeOut => exact continuous_mirrored hg
    | easeInOut => exact continuous_joined hg (spans_start hstart).one

end

/-! ## Curves -/

variable [HasElementary K]

attribute [local instance] Scalar.given

-- what is written with signs is meant in the field
attribute [local instance (low)] Scalar.toAdd Scalar.toSub Scalar.toMul Scalar.toDiv
  Scalar.toNeg Scalar.toOfScientific

/-- A curve that goes from one end of its segment to the other and never back: at two times of
the segment its values are in the order of the times, upwards or downwards. -/
def Climbs (e : Easing) (b c d : K) : Prop :=
  ∀ t u, 0 ≤ t → t ≤ u → u ≤ d → ∃ v w, value e t b c d = .ok v ∧ value e u b c d = .ok w ∧
    (0 ≤ c → b ≤ v ∧ v ≤ w ∧ w ≤ b + c) ∧ (c ≤ 0 → b + c ≤ w ∧ w ≤ v ∧ v ≤ b)

/-- A curve that has a value at every time, also outside of its segment, and comes close to each
of them from both sides. -/
def Unbroken [TopologicalSpace K] (e : Easing) (b c d : K) : Prop :=
  ∃ v : K → K, Continuous v ∧ ∀ t, value e t b c d = .ok (v t)

variable {e : Easing} {b c d : K}

theorem climbs_of_shape (hf : Rises f) (h : e.shape = some f) (hd : 0 < d) : Climbs e b c d := by
  intro t u ht htu hud
  have hmem {s : K} (hs : 0 ≤ s) (hsd : s ≤ d) : s / d ∈ Icc (0 : K) 1 :=
    ⟨div_nonneg hs hd.le, (div_le_one hd).mpr hsd⟩
  have htmem := hmem ht (htu.trans hud)
  have humem := hmem (ht.trans htu) hud
  obtain ⟨hlow, -⟩ := hf.mapsTo htmem
  obtain ⟨-, hhigh⟩ := hf.mapsTo humem
  have hle : f (t / d) ≤ f (u / d) :=
    hf.monotoneOn htmem humem (div_le_div_of_nonneg_right htu hd.le)
  refine ⟨_, _, value_eq h hd, value_eq h hd, fun hc => ⟨?_, ?_, ?_⟩, fun hc => ⟨?_, ?_, ?_⟩⟩
  · linarith [mul_nonneg hc hlow]
  · linarith [mul_le_mul_of_nonneg_left hle hc]
  · linarith [mul_le_mul_of_nonneg_left hhigh hc]
  · linarith [mul_le_mul_of_nonpos_left hhigh hc]
  · linarith [mul_le_mul_of_nonpos_left hle hc]
  · linarith [mul_nonpos_of_nonpos_of_nonneg hc hlow]

theorem unbroken_of_shape [TopologicalSpace K] [OrderTopology K] (hf : Continuous f)
    (h : e.shape = some f) (hd : 0 < d) : Unbroken e b c d := by
  refine ⟨fun t => b + c * f (t / d), ?_, fun t => value_eq h hd⟩
  exact continuous_const.add (continuous_const.mul (hf.comp (continuous_id.div_const d)))

/-- **Straight lines and powers do not turn back, and no bounded curve jumps.**  Without
rounding, in every segment with a length, the curves of the rising families go from one end to
the other in the order of time.  They and the bounces have no gap anywhere, so that at every
time at which one piece of a curve takes over from another both have the same value. -/
theorem curves_climb [TopologicalSpace K] [OrderTopology K] (hd : 0 < d) :
    (e.family ∈ risingFamilies → Climbs e b c d) ∧
      (e.family ∈ boundedFamilies → Unbroken e b c d) := by
  constructor
  · intro h
    obtain ⟨f, hshape, hf⟩ := exists_shape_rising (K := K) h
    exact climbs_of_shape hf hshape hd
  · intro h
    obtain ⟨f, hshape, -⟩ := exists_shape (K := K) h
    exact unbroken_of_shape (continuous_shape h hshape) hshape hd

attribute [local instance] HasElementary.real

/-- Downwards in powers of five, over the middle of the segment; and a bounce. -/
theorem curves_climb_quint :
    (0 : ℝ) < 4 ∧ Family.quint ∈ risingFamilies ∧ Family.bounce ∈ boundedFamilies ∧
      value (.curve .quint .easeInOut) (1 : ℝ) 3 (-2) 4 = .ok (95 / 32) ∧
      value (.curve .quint .easeInOut) (3 : ℝ) 3 (-2) 4 = .ok (33 / 32) ∧
      ((3 : ℝ) + -2 ≤ 33 / 32 ∧ (33 / 32 : ℝ) ≤ 95 / 32 ∧ (95 / 32 : ℝ) ≤ 3) ∧
      Unbroken (.curve .bounce .easeOut) (3 : ℝ) (-2) 4 := by
  have hd : (0 : ℝ) < 4 := by norm_num
  have hrising : Family.quint ∈ risingFamilies := by decide
  have hbounded : Family.bounce ∈ boundedFamilies := by decide
  have hclimbs : Climbs (.curve .quint .easeInOut) (3 : ℝ) (-2) 4 :=
    (curves_climb hd).1 hrising
  have hunbroken : Unbroken (.curve .bounce .easeOut) (3 : ℝ) (-2) 4 :=
    (curves_climb hd).2 hbounded
  obtain ⟨v, w, hv, hw, -, hfalls⟩ := hclimbs 1 3 (by norm_num) (by norm_num) (by norm_num)
  obtain ⟨f, hstart, hpower⟩ :
      ∃ f : ℝ → ℝ, start .quint .easeInOut = some f ∧ ∀ x, f x = x ^ 5 := ⟨_, rfl, fun _ => rfl⟩
  have hvalue (t : ℝ) :
      value (.curve .quint .easeInOut) t 3 (-2) 4 = .ok (3 + -2 * joined f (t / 4)) :=
    value_easeInOut hstart hd
  have hv' : v = 95 / 32 := by
    rw [hvalue] at hv
    cases hv
    norm_num [joined, hpower]
  have hw' : w = 33 / 32 := by
    rw [hvalue] at hw
    cases hw
    norm_num [joined, hpower]
  subst hv' hw'
  exact ⟨hd, hrising, hbounded, hv, hw, hfalls (by norm_num), hunbroken⟩

end Orchestrion.Easing

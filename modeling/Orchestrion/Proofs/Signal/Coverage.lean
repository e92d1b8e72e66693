import Orchestrion.Proofs.Signal.Precedence

set_option autoImplicit false

/-!
# No gap between phases

Where each phase begins when the one before it ends, the windows of a note are joined in the
same way, whatever its length: both ends are told by one product.  So the ends of the
windows lead from the beginning of the note to its end, perhaps back and forth, and a sample
that lies between them is passed by a window that runs forward.
-/

namespace Orchestrion

open Scalar (Places Scales Measures)

variable {α : Type} [Scalar α]

/-- Whether each phase of an envelope begins when the one before it ends, the first one when
the note begins or earlier, and the last one ends when the note does or later. -/
structure Envelope.IsContiguous (e : Envelope α) : Prop where
  chain : e.phases.IsChain fun p q => Scalar.eq p.endTime q.startTime = true
  first : ∃ p ∈ e.phases.head?, Scalar.le p.startTime 0.0 = true
  last : ∃ p ∈ e.phases.getLast?, Scalar.le 1.0 p.endTime = true

/-! ## Ends of windows -/

section

variable [Scales α] {duration : α} {sample : Int}

namespace Phase

variable {p q : Phase α} {first last first' last' : Int}

/-- The window of a phase ends where that of the next one begins. -/
theorem window_joined (h : Scalar.eq p.endTime q.startTime = true)
    (hp : p.window duration = .ok (first, last)) (hq : q.window duration = .ok (first', last')) :
    last = first' := by
  obtain ⟨_, m, -, hm, -, rfl⟩ := Span.exists_of_window hp
  obtain ⟨m', _, hm', -, rfl, -⟩ := Span.exists_of_window hq
  rw [Scales.truncate_mul_congr h hm hm']

section

variable {n : Int} (hn : 0 ≤ n) (hduration : Places.value duration = some ↑(n : ℝ))

include hn hduration

theorem window_start (hzero : Places.round α 0 = 0) (h : Scalar.le p.startTime 0.0 = true)
    (hp : p.window duration = .ok (first, last)) : first = 0 := by
  obtain ⟨m, _, hm, -, rfl, -⟩ := Span.exists_of_window hp
  exact max_eq_left (Scales.truncate_mul_nonpos hn hduration hzero h hm)

theorem le_window_end (hfixed : Places.round α n = ↑(n : ℝ)) (h : Scalar.le 1.0 p.endTime = true)
    (hp : p.window duration = .ok (first, last)) : n ≤ last := by
  obtain ⟨_, m, -, hm, -, rfl⟩ := Span.exists_of_window hp
  exact (Scales.le_truncate_mul hn hduration hfixed h hm).trans (le_max_right 0 m)

end

/-- A sample that lies between the beginning of the first window and the end of the last is
in one of them: it is in the first, or else between the end of that and the last. -/
theorem exists_covering {rest : List (Phase α)}
    (hchain : (p :: rest).IsChain fun p q => Scalar.eq p.endTime q.startTime = true)
    (hplaced : ∀ q ∈ p :: rest, q.IsPlaced duration)
    (hfirst : ∀ first last, p.window duration = .ok (first, last) → first ≤ sample)
    (hlast : ∀ q ∈ (p :: rest).getLast?, ∀ first last,
      q.window duration = .ok (first, last) → sample ≤ last) :
    ∃ q ∈ p :: rest, q.Covers sample duration := by
  induction rest generalizing p with
  | nil =>
    obtain ⟨first, last, hwindow⟩ := hplaced p List.mem_cons_self
    exact ⟨p, List.mem_cons_self, first, last, hwindow, hfirst first last hwindow,
      hlast p rfl first last hwindow⟩
  | cons q rest ih =>
    obtain ⟨hp, hrest⟩ := List.forall_mem_cons.mp hplaced
    obtain ⟨hjoined, hchain⟩ := List.isChain_cons_cons.mp hchain
    obtain ⟨first, last, hwindow⟩ := hp
    rcases le_or_gt sample last with hle | hlt
    · exact ⟨p, List.mem_cons_self, first, last, hwindow, hfirst first last hwindow, hle⟩
    · have hnext : ∀ first' last', q.window duration = .ok (first', last') → first' ≤ sample :=
        fun first' last' hwindow' => window_joined hjoined hwindow hwindow' ▸ hlt.le
      rw [List.getLast?_cons_cons] at hlast
      obtain ⟨r, hr, hcovers⟩ := ih hchain hrest hnext hlast
      exact ⟨r, List.mem_cons_of_mem p hr, hcovers⟩

end Phase

/-! ## Values of the whole note -/

/-- **Contiguous phases leave no gap.**  Let the phases of an envelope be contiguous, and the
duration a whole number, which rounding leaves as it is.  If all phases have windows and no
curve fails, the envelope has a value at each sample of the note, even where some phases
run backwards or have windows without a length. -/
theorem Envelope.no_gap [Measures α] {e : Envelope α} (h : e.IsContiguous) {n : Int}
    (hduration : Places.value duration = some ↑(n : ℝ)) (hzero : Places.round α 0 = 0)
    (hfixed : Places.round α n = ↑(n : ℝ)) (hsample : 0 ≤ sample) (hle : sample ≤ n)
    (hsound : ∀ p ∈ e.phases, p.IsSound sample duration) :
    ∃ v, e.valueAt sample duration = .ok (some v) := by
  have hn : 0 ≤ n := hsample.trans hle
  obtain ⟨p, hhead, hstart⟩ := h.first
  obtain ⟨q, htail, hend⟩ := h.last
  obtain ⟨rest, hphases⟩ := List.head?_eq_some_iff.mp hhead
  have hcovered : ∃ r ∈ e.phases, r.Covers sample duration := by
    have hchain := h.chain
    rw [hphases] at hchain htail hsound ⊢
    refine Phase.exists_covering hchain (fun r hr => (hsound r hr).placed) ?_ ?_
    · intro first last hwindow
      exact (Phase.window_start hn hduration hzero hstart hwindow).trans_le hsample
    · intro r hr first last hwindow
      cases htail.symm.trans hr
      exact hle.trans (Phase.le_window_end hn hduration hfixed hend hwindow)
  obtain ⟨r, hr, hcovers⟩ := hcovered
  exact Envelope.exists_scan_of_covers hsound hr hcovers

end

/-! ## Back and forth -/

/-- Three phases that are joined, on straight lines. -/
def zigzag (a b c d : α) : Envelope α where
  name := .text "e"
  phases := [⟨⟨a, b, 0.0, 1.0⟩, .straight⟩, ⟨⟨b, c, 1.0, -0.5⟩, .straight⟩,
    ⟨⟨c, d, 0.5, 0.5⟩, .straight⟩]

theorem isContiguous_zigzag {a b c d : α} (hstart : Scalar.le a 0.0 = true)
    (hb : Scalar.eq b b = true) (hc : Scalar.eq c c = true) (hend : Scalar.le 1.0 d = true) :
    (zigzag a b c d).IsContiguous where
  chain := List.isChain_cons_cons.mpr
    ⟨hb, List.isChain_cons_cons.mpr ⟨hc, List.isChain_singleton _⟩⟩
  first := ⟨_, rfl, hstart⟩
  last := ⟨_, rfl, hend⟩

/-- A straight line has a value in every window of the reals. -/
theorem isSound_straight (ρ : ℝ → ℝ) {p : Phase ℝ} (h : p.easing = .straight) (sample : Int)
    (duration : ℝ) : @Phase.IsSound ℝ (Scalar.rounding ρ) p sample duration := by
  let := Scalar.rounding ρ
  refine ⟨⟨_, _, rfl⟩, fun first last t d _ _ _ hlength _ hspan => ?_⟩
  have hd : d = ((last - first : ℤ) : ℝ) := (Except.ok.inj hspan).symm
  have hne : d ≠ 0.0 := by
    rw [hd]
    norm_num
    exact_mod_cast sub_ne_zero.mpr hlength.symm
  have hquotient (x : ℝ) : Scalar.quotient x d = .ok (x / d) := if_neg (mt of_decide_eq_true hne)
  rw [h, Easing.value, Easing.linear, hquotient]
  exact ⟨_, rfl⟩

/-- The second phase runs backwards.  In doubles, and in real numbers with products that are
rounded to whole numbers below them, there is a value all the same. -/
theorem no_gap_zigzag :
    ((zigzag (-0.5) 0.75 0.25 1.0 : Envelope Float).IsContiguous ∧
      Places.value (10.0 : Float) = some ↑((10 : ℤ) : ℝ) ∧
      (∀ p ∈ (zigzag (-0.5) 0.75 0.25 1.0 : Envelope Float).phases, p.IsSound 5 10.0) ∧
      ∃ v, (zigzag (-0.5) 0.75 0.25 1.0 : Envelope Float).valueAt 5 10.0 = .ok (some v)) ∧
    ∀ sample : Int, 0 ≤ sample → sample ≤ 10 → ∃ v,
      @Envelope.valueAt ℝ (Scalar.rounding fun a => ⌊a⌋)
        (@zigzag ℝ (Scalar.rounding fun a => ⌊a⌋) (-1 / 2) (3 / 4) (1 / 4) 1) sample 10 =
        .ok (some v) := by
  constructor
  · have hcontiguous : (zigzag (-0.5) 0.75 0.25 1.0 : Envelope Float).IsContiguous :=
      isContiguous_zigzag (by decide +kernel) (by decide +kernel) (by decide +kernel)
        (by decide +kernel)
    have hduration : Places.value (10.0 : Float) = some ↑((10 : ℤ) : ℝ) := by
      have h : Binary64.ofFloat 10.0 = .finite false (5 * 2 ^ 50) (-49) := by decide +kernel
      show Binary64.value (Binary64.ofFloat 10.0) = _
      rw [h, Binary64.value_positive]
      norm_num
    have hzero : Places.round Float 0 = 0 := by
      have h := Binary64.nearest_natCast (n := 0) (by norm_num)
      rwa [Nat.cast_zero, EReal.coe_zero] at h
    have hok : ∀ p ∈ (zigzag (-0.5) 0.75 0.25 1.0 : Envelope Float).phases,
        (p.valueAt 5 10.0).isOk = true := by decide +kernel
    have hsound : ∀ p ∈ (zigzag (-0.5) 0.75 0.25 1.0 : Envelope Float).phases, p.IsSound 5 10.0 :=
      fun p hp => Phase.isSound_of_isOk (hok p hp)
    exact ⟨hcontiguous, hduration, hsound, Envelope.no_gap hcontiguous hduration hzero
      (Binary64.nearest_of_value hduration) (by decide) (by decide) hsound⟩
  · intro sample hsample hle
    have hfloor : Monotone fun a : ℝ => ((⌊a⌋ : ℤ) : ℝ) :=
      fun a b hab => Int.cast_le.mpr (Int.floor_mono hab)
    let := Scalar.rounding fun a => ⌊a⌋
    let := Scales.rounding hfloor
    have := Measures.rounding fun a => ⌊a⌋
    have hcontiguous : (zigzag (-1 / 2) (3 / 4) (1 / 4) 1 : Envelope ℝ).IsContiguous :=
      isContiguous_zigzag (decide_eq_true (by norm_num)) (decide_eq_true rfl)
        (decide_eq_true rfl) (decide_eq_true (by norm_num))
    have hzero : Places.round ℝ 0 = 0 := by
      show (((⌊(0 : ℝ)⌋ : ℤ) : ℝ) : EReal) = 0
      simp
    have hfixed : Places.round ℝ ((10 : ℤ) : ℝ) = ↑((10 : ℤ) : ℝ) := by
      show (((⌊((10 : ℤ) : ℝ)⌋ : ℤ) : ℝ) : EReal) = _
      rw [Int.floor_intCast]
    refine Envelope.no_gap hcontiguous (by norm_num; rfl) hzero hfixed hsample hle ?_
    intro p hp
    refine isSound_straight _ ?_ sample 10
    rcases List.mem_cons.mp hp with rfl | hp
    · rfl
    · rcases List.mem_cons.mp hp with rfl | hp
      · rfl
      · obtain rfl := List.mem_singleton.mp hp
        rfl

end Orchestrion

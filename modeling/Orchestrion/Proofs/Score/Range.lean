import Orchestrion.Proofs.Binary64.Bounds
import Orchestrion.Proofs.Score.Notes

set_option autoImplicit false

/-!
# How far the times of a score reach

The seconds since the start are added up in doubles and multiplied by the rate.  Whatever
the delays are, all that can happen is that a time gets out of range.  Where the delays and
the rate are bounded it does not, however many messages there are.
-/

namespace Orchestrion.Score

open Binary64

variable {rate : Int} {seconds : Float}

/-! ## The sample at a time -/

theorem samplesOf_of_rate {r : Float} (h : Scalar.ofInt rate = .ok r) (seconds : Float) :
    samplesOf seconds rate = toInteger divEven (seconds * r) := by
  unfold samplesOf
  rw [h]
  rfl

/-- A time has a sample, or it is out of range. -/
theorem samplesOf_cases {c : EReal} (hrate : 1 ≤ rate) (hc : value (ofFloat seconds) = some c) :
    samplesOf seconds rate = .error .overflow ∨
      ∃ (t : ℝ) (now : Int), c = ↑t ∧ samplesOf seconds rate = .ok now := by
  rcases ofInt_cases rate with hover | ⟨r, hr⟩
  · left
    unfold samplesOf
    rw [hover]
    rfl
  · obtain ⟨k, hk, -, hpos⟩ := Scalar.KeepsIntegers.exists_value_ofInt rate r hr
    have hone : (0 : ℝ) < k := by
      have := hpos hrate
      exact_mod_cast this
    have hproduct := value_mul_of_pos hc hk hone
    rw [samplesOf_of_rate hr]
    rcases toInteger_cases divEven hproduct with hover | ⟨a, now, ha, hnow⟩
    · exact .inl hover
    · -- an infinite time would be an infinite sample
      refine .inr ?_
      induction c with
      | bot =>
        rw [EReal.bot_mul_coe_of_pos hone, Scalar.extended_bot] at ha
        exact absurd ha.symm (EReal.coe_ne_bot a)
      | top =>
        rw [EReal.top_mul_coe_of_pos hone, Scalar.extended_top] at ha
        exact absurd ha.symm (EReal.coe_ne_top a)
      | coe t => exact ⟨t, now, rfl, hnow⟩

theorem exists_samplesOf {j k : Nat} (hrate : |rate| ≤ 2 ^ k) (h : Within j seconds)
    (hjk : j + k ≤ 1023) : ∃ now, samplesOf seconds rate = .ok now := by
  obtain ⟨x, hx, hk⟩ := exists_within_ofInt (by omega) hrate
  rw [samplesOf_of_rate hx]
  exact exists_toInteger divEven (h.mul hk hjk)

/-! ## All messages -/

theorem play_cases {messages : List (TimedMessage Float)} {s : State Float} {t : ℝ}
    (hrate : 1 ≤ rate) (hs : value (ofFloat s.seconds) = some ↑t)
    (hdelta : ∀ m ∈ messages, ∃ c, value (ofFloat m.delta) = some c) :
    (∃ s', play rate s messages = .ok s') ∨ play rate s messages = .error .overflow := by
  induction messages generalizing s t with
  | nil => exact .inl ⟨s, rfl⟩
  | cons m rest ih =>
    obtain ⟨⟨d, hd⟩, hrest⟩ := List.forall_mem_cons.mp hdelta
    obtain ⟨c, hc⟩ := exists_value_add hs hd
    rcases samplesOf_cases hrate hc with hover | ⟨t', now, rfl, hnow⟩
    · right
      simp only [play, hover]
    · simp only [play, hnow]
      refine ih (t := t') ?_ hrest
      rw [State.seconds_play]
      exact hc

/-- However many the messages are, only their delays have to be bounded. -/
theorem exists_play {messages : List (TimedMessage Float)} {s : State Float} {j k : Nat}
    (hrate : |rate| ≤ 2 ^ k) (hs : Within (j + 54) s.seconds)
    (hdelta : ∀ m ∈ messages, Within j m.delta) (hjk : j + 54 + k ≤ 1023) :
    ∃ s', play rate s messages = .ok s' := by
  induction messages generalizing s with
  | nil => exact ⟨s, rfl⟩
  | cons m rest ih =>
    obtain ⟨hd, hrest⟩ := List.forall_mem_cons.mp hdelta
    have hsum := hs.add hd (by omega)
    obtain ⟨now, hnow⟩ := exists_samplesOf hrate hsum hjk
    simp only [play, hnow]
    refine ih ?_ hrest
    rw [State.seconds_play]
    exact hsum

theorem notes_cases {messages : List (TimedMessage Float)} (hrate : 1 ≤ rate)
    (hdelta : ∀ m ∈ messages, ∃ c, value (ofFloat m.delta) = some c) :
    (∃ result, notes messages rate = .ok result) ∨ notes messages rate = .error .overflow := by
  have hzero : value (ofFloat (State.initial : State Float).seconds) = some ((0 : ℝ) : EReal) :=
    Scalar.Faithful.value_zero (α := Float)
  unfold notes
  rcases play_cases hrate hzero hdelta with ⟨s, hs⟩ | hover
  · rw [hs]
    exact .inl ⟨_, rfl⟩
  · rw [hover]
    exact .inr rfl

theorem exists_notes {messages : List (TimedMessage Float)} {j k : Nat} (hrate : |rate| ≤ 2 ^ k)
    (hdelta : ∀ m ∈ messages, Within j m.delta) (hjk : j + 54 + k ≤ 1023) :
    ∃ result, notes messages rate = .ok result := by
  obtain ⟨s, hs⟩ := exists_play (s := State.initial) hrate (within_zero _) hdelta hjk
  unfold notes
  rw [hs]
  exact ⟨_, rfl⟩

end Orchestrion.Score

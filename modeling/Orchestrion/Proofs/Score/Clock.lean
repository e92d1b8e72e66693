import Orchestrion.Proofs.Context
import Orchestrion.Proofs.Scalar.Rounded
import Orchestrion.Proofs.Score.Notes

set_option autoImplicit false

/-!
# The order of a score in time

Delays that are not negative add up to times that do not run backwards, although each
sum is rounded, and neither do the samples next to these times.  A note that is taken
from the stack of open notes therefore ends no earlier than it begins, whichever notes
were opened and closed between, and the notes of a score are in the order of their ends.
-/

namespace Orchestrion.Score

open Scalar.Faithful (value)
open Scalar.Rounded (round)

section

variable (α : Type) [Scalar α] [Scalar.Faithful α] [Scalar.Rounded α] {rate : Int} {s t : ℝ}
  {now later : Int}

/-! ## The sample at a time -/

/-- The sample next to a time, at a number of samples in a second. -/
def IsSampleAt (rate : Int) (s : ℝ) (now : Int) : Prop :=
  ∃ (x : α) (r p : ℝ), Scalar.ofInt rate = .ok x ∧ value x = some ↑r ∧ 0 ≤ r ∧
    round α (s * r) = ↑p ∧ now = Scalar.halfEven p

variable {α}

theorem IsSampleAt.mono (h : IsSampleAt α rate s now) (h' : IsSampleAt α rate t later)
    (hst : s ≤ t) : now ≤ later := by
  obtain ⟨x, r, p, hx, hr, hpos, hp, rfl⟩ := h
  obtain ⟨x', r', p', hx', hr', _, hp', rfl⟩ := h'
  rw [hx] at hx'
  cases hx'
  rw [hr] at hr'
  obtain rfl : r = r' := by exact_mod_cast Option.some.inj hr'
  have hround : round α (s * r) ≤ round α (t * r) :=
    Scalar.Rounded.round_mono (mul_le_mul_of_nonneg_right hst hpos)
  rw [hp, hp'] at hround
  exact Scalar.halfEven_mono (by exact_mod_cast hround)

theorem IsSampleAt.nonneg (h : IsSampleAt α rate s now) (hs : 0 ≤ s) : 0 ≤ now := by
  obtain ⟨x, r, p, _, _, hpos, hp, rfl⟩ := h
  have hzero : round α 0 = ↑(0 : ℝ) :=
    Scalar.Rounded.round_value 0.0 0 Scalar.Faithful.value_zero
  have hround : round α 0 ≤ round α (s * r) :=
    Scalar.Rounded.round_mono (mul_nonneg hs hpos)
  rw [hzero, hp] at hround
  exact Scalar.halfEven_nonneg (by exact_mod_cast hround)

/-- What has a sample is a time; it is not infinite. -/
theorem exists_isSampleAt {seconds : α} {c : EReal} (hrate : 0 ≤ rate)
    (hseconds : value seconds = some c) (hc : 0 ≤ c) (h : samplesOf seconds rate = .ok now) :
    ∃ t : ℝ, c = ↑t ∧ IsSampleAt α rate t now := by
  obtain ⟨x, hx, h⟩ := exists_of_bind_eq_ok h
  obtain ⟨r, hr, hpos⟩ := Scalar.Rounded.value_ofInt rate x hx
  obtain ⟨p, hp, rfl⟩ := (Scalar.Rounded.nearest_eq_ok_iff _ _).mp h
  induction c with
  | bot => exact absurd hc (not_le.mpr EReal.bot_lt_zero)
  | top => exact absurd hp (Scalar.Rounded.value_top_mul seconds x p hseconds)
  | coe t =>
    rw [Scalar.Rounded.value_mul seconds x t r hseconds hr] at hp
    exact ⟨t, rfl, x, r, p, hx, hr, hpos hrate, Option.some.inj hp, rfl⟩

/-! ## The clock -/

/-- Delays that are not negative. -/
def Forward (messages : List (TimedMessage α)) : Prop :=
  ∀ m ∈ messages, Scalar.le 0.0 m.delta = true

/-- From a time on, the samples of the messages are not before that time, and they are in
order. -/
theorem clock_ordered {messages : List (TimedMessage α)} {seconds : α} {nows : List Int}
    (hrate : 0 ≤ rate) (hforward : Forward messages) (hseconds : value seconds = some ↑s)
    (hs : 0 ≤ s) (h : clock rate seconds messages = .ok nows) :
    (∀ now ∈ nows, ∃ t, s ≤ t ∧ IsSampleAt α rate t now) ∧ nows.Pairwise (· ≤ ·) := by
  induction messages generalizing seconds s nows with
  | nil =>
    cases h
    exact ⟨nofun, .nil⟩
  | cons m rest ih =>
    obtain ⟨hdelta, hrest⟩ := List.forall_mem_cons.mp hforward
    rw [clock_cons] at h
    obtain ⟨now, hnow, h⟩ := exists_of_bind_eq_ok h
    obtain ⟨nows', hnows', rfl⟩ := exists_of_map_eq_ok h
    -- the delay is a number, and the sum is no smaller than before
    obtain ⟨zero, d, hzero, hd, hle⟩ := (Scalar.Faithful.le_iff _ _).mp hdelta
    rw [Scalar.Faithful.value_zero] at hzero
    cases hzero
    obtain ⟨c, hc, hsc⟩ := Scalar.Rounded.exists_value_add hseconds hd hle
    have hc0 : 0 ≤ c := le_trans (by exact_mod_cast hs) hsc
    obtain ⟨t, rfl, hsample⟩ := exists_isSampleAt hrate hc hc0 hnow
    have hst : s ≤ t := by exact_mod_cast hsc
    obtain ⟨hlater, hordered⟩ := ih hrest hc (hs.trans hst) hnows'
    constructor
    · intro now' hnow'
      rcases List.mem_cons.mp hnow' with rfl | hmem
      · exact ⟨t, hst, hsample⟩
      · obtain ⟨t', htt', hsample'⟩ := hlater now' hmem
        exact ⟨t', hst.trans htt', hsample'⟩
    · refine .cons (fun now' hmem => ?_) hordered
      obtain ⟨t', htt', hsample'⟩ := hlater now' hmem
      exact hsample.mono hsample' htt'

end

/-! ## Notes in order -/

/-- The order of a list is that of another one whose elements correspond to it. -/
theorem pairwise_of_forall₂ {β γ : Type} {R : β → γ → Prop} {S : β → β → Prop} {T : γ → γ → Prop}
    {l : List β} {l' : List γ} (h : List.Forall₂ R l l') (hl : l.Pairwise S)
    (hT : ∀ b b' c c', R b c → R b' c' → S b b' → T c c') : l'.Pairwise T := by
  induction h with
  | nil => exact .nil
  | @cons b c l l' hbc hrest ih =>
    obtain ⟨hfirst, hl⟩ := List.pairwise_cons.mp hl
    refine .cons (fun c' hc' => ?_) (ih hl)
    obtain ⟨i, hi, rfl⟩ := List.mem_iff_getElem.mp hc'
    have hi' : i < l.length := hrest.length_eq ▸ hi
    exact hT b l[i] c l'[i] hbc (hrest.get hi' hi) (hfirst _ (List.getElem_mem hi'))

variable {ms : List Message} {nows : List Int} {found : List Note}

/-- An earlier index has no later sample. -/
theorem sample_le_of_index_lt (h : nows.Pairwise (· ≤ ·)) {i j : Nat} {now later : Int}
    (hij : i < j) (hi : nows[i]? = some now) (hj : nows[j]? = some later) : now ≤ later := by
  obtain ⟨hi', rfl⟩ := List.getElem?_eq_some_iff.mp hi
  obtain ⟨hj', rfl⟩ := List.getElem?_eq_some_iff.mp hj
  exact List.pairwise_iff_getElem.mp h i j hi' hj' hij

/-- Notes that begin in the score, end no earlier than they begin, and come in the order of
their ends. -/
structure InOrder (found : List Note) : Prop where
  start_nonneg : ∀ n ∈ found, 0 ≤ n.start
  start_le_finish : ∀ n ∈ found, n.start ≤ n.finish
  finish_ordered : found.Pairwise fun n m => n.finish ≤ m.finish

theorem inOrder_of_forall₂ (hnotes : List.Forall₂ (NoteOf ms nows) (pairs ms) found)
    (hordered : nows.Pairwise (· ≤ ·)) (hnonneg : ∀ now ∈ nows, 0 ≤ now) : InOrder found := by
  have hpaired : ∀ n ∈ found, ∃ pair ∈ pairs ms, NoteOf ms nows pair n := by
    intro n hn
    obtain ⟨k, hk, rfl⟩ := List.mem_iff_getElem.mp hn
    have hk' : k < (pairs ms).length := hnotes.length_eq ▸ hk
    exact ⟨_, List.getElem_mem hk', hnotes.get hk' hk⟩
  constructor
  case start_nonneg =>
    intro n hn
    obtain ⟨pair, _, hnote⟩ := hpaired n hn
    exact hnonneg _ (List.mem_of_getElem? hnote.start)
  case start_le_finish =>
    intro n hn
    obtain ⟨⟨i, j⟩, hpair, hnote⟩ := hpaired n hn
    have hij : i < j := (mem_pairs_iff.mp hpair).1
    exact sample_le_of_index_lt hordered hij hnote.start hnote.finish
  case finish_ordered =>
    refine pairwise_of_forall₂ hnotes (pairwise_pairs ms) fun pair pair' n n' h h' hlt => ?_
    exact sample_le_of_index_lt hordered hlt h.finish h'.finish

/-- When the times of a score can be computed, its notes are in order. -/
theorem exists_notes_inOrder {α : Type} [Scalar α] [Scalar.Faithful α] [Scalar.Rounded α]
    {messages : List (TimedMessage α)} {rate : Int} {nows : List Int} (hrate : 0 ≤ rate)
    (hforward : Forward messages) (hclock : clock rate 0.0 messages = .ok nows) :
    ∃ found warnings, notes messages rate = .ok (found, warnings) ∧ InOrder found := by
  have hzero : value (0.0 : α) = some ↑(0 : ℝ) := Scalar.Faithful.value_zero
  obtain ⟨hsamples, hordered⟩ := clock_ordered hrate hforward hzero le_rfl hclock
  have hnonneg : ∀ now ∈ nows, 0 ≤ now := by
    intro now hnow
    obtain ⟨t, ht, hsample⟩ := hsamples now hnow
    exact hsample.nonneg ht
  have hplay := play_heard rate (Heard.initial (α := α)) messages
  rw [show (State.initial : State α).seconds = 0.0 from rfl, hclock] at hplay
  obtain ⟨s, hs, hheard⟩ := hplay
  simp only [List.nil_append] at hheard
  unfold notes
  rw [hs]
  exact ⟨_, _, rfl, inOrder_of_forall₂ hheard.finished hordered hnonneg⟩

end Orchestrion.Score

import Orchestrion.Proofs.Context
import Orchestrion.Proofs.Scalar.Windows
import Orchestrion.Signal.Envelope

set_option autoImplicit false

/-!
# The last phase decides

The phases of an envelope are looked through in order, and one that has a value at a sample
takes the place of what was found before.  So the value of an envelope is that of its last
phase that covers the sample, which is told from this phase alone: what stands before it
makes no difference, and neither does a phase that does not cover the sample.
-/

namespace Orchestrion

variable {α : Type} [Scalar α]

/-! ## One phase -/

/-- A window is told by where its ends are, and does not begin before the note. -/
theorem Span.exists_of_window {s : Span α} {duration : α} {first last : Int}
    (h : s.window duration = .ok (first, last)) :
    ∃ n m, Scalar.truncate (s.startTime * duration) = .ok n ∧
      Scalar.truncate (s.endTime * duration) = .ok m ∧ first = max 0 n ∧ last = max 0 m := by
  obtain ⟨n, hn, h⟩ := exists_of_bind_eq_ok h
  obtain ⟨m, hm, h⟩ := exists_of_bind_eq_ok h
  cases h
  exact ⟨n, m, hn, hm, rfl, rfl⟩

namespace Phase

section

variable (p : Phase α) (sample : Int) (duration : α)

/-- Whether a phase has a window in notes of some length. -/
def IsPlaced : Prop := ∃ first last, p.window duration = .ok (first, last)

/-- Whether a sample lies in the window of a phase. -/
def Covers : Prop :=
  ∃ first last, p.window duration = .ok (first, last) ∧ first ≤ sample ∧ sample ≤ last

/-- What a phase gives to a sample of its window: the value at its end if the window has no
length, and otherwise that of its curve, at the distance from the first sample in a segment
from the first sample to the last. -/
inductive Gives : α → Prop
  | atEnd {first : Int} (window : p.window duration = .ok (first, first)) (at_ : sample = first) :
    Gives (p.startVal + p.deltaVal)
  | onCurve {first last : Int} {t d v : α} (window : p.window duration = .ok (first, last))
    (first_le : first ≤ sample) (le_last : sample ≤ last) (length : first ≠ last)
    (time : Scalar.ofInt (sample - first) = .ok t) (span : Scalar.ofInt (last - first) = .ok d)
    (curve : p.easing.value t p.startVal p.deltaVal d = .ok v) : Gives v

/-- Whether a phase has a window, and its curve, if it is asked for the sample, a value. -/
structure IsSound : Prop where
  placed : p.IsPlaced duration
  curve (first last : Int) (t d : α) (window : p.window duration = .ok (first, last))
    (first_le : first ≤ sample) (le_last : sample ≤ last) (length : first ≠ last)
    (time : Scalar.ofInt (sample - first) = .ok t) (span : Scalar.ofInt (last - first) = .ok d) :
    ∃ v, p.easing.value t p.startVal p.deltaVal d = .ok v

end

variable {p : Phase α} {sample : Int} {duration : α} {v : α}

theorem Gives.covers (h : p.Gives sample duration v) : p.Covers sample duration := by
  cases h with
  | atEnd window at_ => exact ⟨_, _, window, at_.ge, at_.le⟩
  | onCurve window first_le le_last => exact ⟨_, _, window, first_le, le_last⟩

/-- In its window a phase has the value that it gives. -/
theorem valueIn_eq_ok_iff {first last : Int} (hwindow : p.window duration = .ok (first, last))
    (hfirst : first ≤ sample) (hlast : sample ≤ last) :
    p.valueIn first last sample = .ok v ↔ p.Gives sample duration v := by
  unfold valueIn
  constructor
  · intro h
    split_ifs at h with hempty
    · cases h
      obtain rfl : first = last := by omega
      exact .atEnd hwindow (by omega)
    · cases ht : (Scalar.ofInt (sample - first) : Except ArithFault α) with
      | error fault =>
        rw [ht] at h
        cases h
      | ok t =>
        cases hd : (Scalar.ofInt (last - first) : Except ArithFault α) with
        | error fault =>
          rw [ht, hd] at h
          cases h
        | ok d =>
          rw [ht, hd] at h
          exact .onCurve hwindow hfirst hlast (by omega) ht hd h
  · intro h
    cases h with
    | atEnd window at_ =>
      cases hwindow.symm.trans window
      exact if_pos (Int.sub_self _)
    | onCurve window first_le le_last length time span curve =>
      cases hwindow.symm.trans window
      rw [if_neg (by omega), time, span]
      exact curve

/-- A phase is looked at: it has no window, it does not cover the sample, or it does. -/
theorem valueAt_cases (p : Phase α) (sample : Int) (duration : α) :
    (∃ fault, p.window duration = .error fault ∧ p.valueAt sample duration = .error fault) ∨
      (p.IsPlaced duration ∧ ¬p.Covers sample duration ∧ p.valueAt sample duration = .ok none) ∨
      ∃ first last, p.window duration = .ok (first, last) ∧ first ≤ sample ∧ sample ≤ last ∧
        p.valueAt sample duration = (p.valueIn first last sample).map some := by
  unfold valueAt
  cases hwindow : p.window duration with
  | error fault => exact .inl ⟨fault, rfl, rfl⟩
  | ok window =>
    obtain ⟨first, last⟩ := window
    by_cases hinside : first ≤ sample ∧ sample ≤ last
    · refine .inr (.inr ⟨first, last, rfl, hinside.1, hinside.2, ?_⟩)
      simp only [if_pos hinside]
      cases p.valueIn first last sample <;> rfl
    · refine .inr (.inl ⟨⟨first, last, hwindow⟩, ?_, if_neg hinside⟩)
      rintro ⟨first', last', hwindow', hfirst, hlast⟩
      cases hwindow.symm.trans hwindow'
      exact hinside ⟨hfirst, hlast⟩

theorem valueAt_eq_some_iff :
    p.valueAt sample duration = .ok (some v) ↔ p.Gives sample duration v := by
  rcases p.valueAt_cases sample duration with ⟨fault, hwindow, hvalue⟩ | ⟨hplaced, hcovers, hvalue⟩ |
    ⟨first, last, hwindow, hfirst, hlast, hvalue⟩
  · rw [hvalue]
    refine ⟨nofun, fun h => ?_⟩
    obtain ⟨first, last, hwindow', -⟩ := h.covers
    cases hwindow.symm.trans hwindow'
  · rw [hvalue]
    exact ⟨nofun, fun h => absurd h.covers hcovers⟩
  · rw [hvalue, ← valueIn_eq_ok_iff hwindow hfirst hlast]
    cases p.valueIn first last sample with
    | error fault => exact ⟨nofun, nofun⟩
    | ok v' => simp [Except.map]

theorem valueAt_eq_none_iff : p.valueAt sample duration = .ok none ↔
    p.IsPlaced duration ∧ ¬p.Covers sample duration := by
  rcases p.valueAt_cases sample duration with ⟨fault, hwindow, hvalue⟩ | ⟨hplaced, hcovers, hvalue⟩ |
    ⟨first, last, hwindow, hfirst, hlast, hvalue⟩
  · rw [hvalue]
    refine ⟨nofun, fun ⟨⟨first, last, hwindow'⟩, _⟩ => ?_⟩
    cases hwindow.symm.trans hwindow'
  · rw [hvalue]
    exact ⟨fun _ => ⟨hplaced, hcovers⟩, fun _ => rfl⟩
  · rw [hvalue]
    refine ⟨fun h => ?_, fun ⟨_, hcovers⟩ => absurd ⟨first, last, hwindow, hfirst, hlast⟩ hcovers⟩
    cases hin : p.valueIn first last sample <;> rw [hin] at h <;> cases h

/-- A phase is sound if looking at it does not fail. -/
theorem isSound_of_isOk (h : (p.valueAt sample duration).isOk = true) :
    p.IsSound sample duration := by
  cases hvalue : p.valueAt sample duration with
  | error fault =>
    rw [hvalue] at h
    cases h
  | ok found =>
    cases found with
    | none =>
      obtain ⟨hplaced, hcovers⟩ := valueAt_eq_none_iff.mp hvalue
      refine ⟨hplaced, fun first last t d window first_le le_last _ _ _ => ?_⟩
      exact absurd ⟨first, last, window, first_le, le_last⟩ hcovers
    | some v =>
      have hgives := valueAt_eq_some_iff.mp hvalue
      obtain ⟨first, last, hwindow, -⟩ := hgives.covers
      refine ⟨⟨first, last, hwindow⟩, fun first' last' t d window _ _ length time span => ?_⟩
      cases hgives with
      | atEnd window' =>
        cases window.symm.trans window'
        exact absurd rfl length
      | onCurve window' _ _ _ time' span' curve =>
        cases window.symm.trans window'
        cases time.symm.trans time'
        cases span.symm.trans span'
        exact ⟨_, curve⟩

variable [Scalar.Measures α]

/-- A sound phase gives a value to each sample that it covers: the numbers that its curve is
asked with can be counted to, as the end of the window has been told from a number. -/
theorem IsSound.exists_gives (h : p.IsSound sample duration) (hcovers : p.Covers sample duration) :
    ∃ v, p.Gives sample duration v := by
  obtain ⟨first, last, hwindow, hfirst, hlast⟩ := hcovers
  rcases eq_or_ne first last with rfl | hlength
  · exact ⟨_, .atEnd hwindow (by omega)⟩
  · obtain ⟨n, m, hn, hm, hfirst', hlast'⟩ := Span.exists_of_window hwindow
    have hcount {k : Int} (hk : 0 ≤ k) (hle : k ≤ m) : ∃ y : α, Scalar.ofInt k = .ok y :=
      Scalar.Measures.exists_ofInt _ m k hm hk hle
    obtain ⟨t, ht⟩ := hcount (k := sample - first) (by omega) (by omega)
    obtain ⟨d, hd⟩ := hcount (k := last - first) (by omega) (by omega)
    obtain ⟨v, hv⟩ := h.curve first last t d hwindow hfirst hlast hlength ht hd
    exact ⟨v, .onCurve hwindow hfirst hlast hlength ht hd hv⟩

/-- Looking at a sound phase does not fail. -/
theorem IsSound.exists_valueAt (h : p.IsSound sample duration) :
    ∃ found, p.valueAt sample duration = .ok found := by
  by_cases hcovers : p.Covers sample duration
  · obtain ⟨v, hv⟩ := h.exists_gives hcovers
    exact ⟨some v, valueAt_eq_some_iff.mpr hv⟩
  · exact ⟨none, valueAt_eq_none_iff.mpr ⟨h.placed, hcovers⟩⟩

end Phase

/-! ## All phases of an envelope -/

namespace Envelope

variable {p : Phase α} {phases front back : List (Phase α)} {sample : Int} {duration v : α}
  {value : Option α}

theorem scan_append (front back : List (Phase α)) (sample : Int) (duration : α)
    (value : Option α) :
    scan sample duration value (front ++ back) =
      (scan sample duration value front).bind fun value => scan sample duration value back := by
  induction front generalizing value with
  | nil => rfl
  | cons p rest ih =>
    rw [List.cons_append, scan, scan]
    rcases p.valueAt sample duration with fault | found | v
    · rfl
    · exact ih value
    · exact ih (some v)

/-- Phases that do not cover a sample leave what has been found. -/
theorem scan_of_not_covers
    (h : ∀ p ∈ phases, p.IsPlaced duration ∧ ¬p.Covers sample duration) :
    scan sample duration value phases = .ok value := by
  induction phases with
  | nil => rfl
  | cons p rest ih =>
    obtain ⟨hp, hrest⟩ := List.forall_mem_cons.mp h
    rw [scan, Phase.valueAt_eq_none_iff.mpr hp]
    exact ih hrest

/-- What a phase gives takes the place of what has been found, if no later phase covers the
sample. -/
theorem scan_of_gives (hfront : ∃ found, scan sample duration value front = .ok found)
    (hp : p.Gives sample duration v)
    (hback : ∀ q ∈ back, q.IsPlaced duration ∧ ¬q.Covers sample duration) :
    scan sample duration value (front ++ p :: back) = .ok (some v) := by
  obtain ⟨found, hfound⟩ := hfront
  rw [scan_append, hfound, Except.bind, scan, Phase.valueAt_eq_some_iff.mpr hp]
  exact scan_of_not_covers hback

/-- A phase that does not cover a sample makes no difference to what is found. -/
theorem scan_without {q : Phase α} (hplaced : q.IsPlaced duration)
    (hcovers : ¬q.Covers sample duration) :
    scan sample duration value (front ++ q :: back) =
      scan sample duration value (front ++ back) := by
  rw [scan_append, scan_append]
  cases scan sample duration value front with
  | error fault => rfl
  | ok found =>
    rw [Except.bind, Except.bind, scan, Phase.valueAt_eq_none_iff.mpr ⟨hplaced, hcovers⟩]

/-- Some phase is the last one that covers a sample, or there is none. -/
theorem exists_last_covering (phases : List (Phase α)) (sample : Int) (duration : α) :
    (∀ p ∈ phases, ¬p.Covers sample duration) ∨
      ∃ front p back, phases = front ++ p :: back ∧ p.Covers sample duration ∧
        ∀ q ∈ back, ¬q.Covers sample duration := by
  induction phases with
  | nil => exact .inl fun _ hp => absurd hp List.not_mem_nil
  | cons p rest ih =>
    rcases ih with hnone | ⟨front, q, back, rfl, hq, hback⟩
    · by_cases hp : p.Covers sample duration
      · exact .inr ⟨[], p, rest, rfl, hp, hnone⟩
      · exact .inl (List.forall_mem_cons.mpr ⟨hp, hnone⟩)
    · exact .inr ⟨p :: front, q, back, rfl, hq, hback⟩

variable [Scalar.Measures α]

/-- Sound phases are looked through to the end. -/
theorem exists_scan (h : ∀ p ∈ phases, p.IsSound sample duration) (value : Option α) :
    ∃ found, scan sample duration value phases = .ok found := by
  induction phases generalizing value with
  | nil => exact ⟨value, rfl⟩
  | cons p rest ih =>
    obtain ⟨hp, hrest⟩ := List.forall_mem_cons.mp h
    obtain ⟨found, hfound⟩ := hp.exists_valueAt
    rw [scan, hfound]
    cases found with
    | none => exact ih hrest value
    | some v => exact ih hrest (some v)

/-- What the last phase that covers a sample gives is found, whatever sound phases are in
front of it. -/
theorem exists_scan_of_last (hp : p.IsSound sample duration) (hcovers : p.Covers sample duration)
    (hback : ∀ q ∈ back, q.IsPlaced duration ∧ ¬q.Covers sample duration) :
    ∃ v, p.Gives sample duration v ∧
      ∀ front : List (Phase α), (∀ q ∈ front, q.IsSound sample duration) →
        scan sample duration none (front ++ p :: back) = .ok (some v) := by
  obtain ⟨v, hv⟩ := hp.exists_gives hcovers
  exact ⟨v, hv, fun front hfront => scan_of_gives (exists_scan hfront none) hv hback⟩

/-- Where some phase covers a sample there is a value. -/
theorem exists_scan_of_covers (h : ∀ p ∈ phases, p.IsSound sample duration) (hp : p ∈ phases)
    (hcovers : p.Covers sample duration) :
    ∃ v, scan sample duration none phases = .ok (some v) := by
  rcases exists_last_covering phases sample duration with hnone | ⟨front, q, back, rfl, hq, hback⟩
  · exact absurd hcovers (hnone p hp)
  · obtain ⟨hfront, hrest⟩ := List.forall_mem_append.mp h
    obtain ⟨hsound, hlater⟩ := List.forall_mem_cons.mp hrest
    obtain ⟨v, -, hscan⟩ :=
      exists_scan_of_last hsound hq fun r hr => ⟨(hlater r hr).placed, hback r hr⟩
    exact ⟨v, hscan front hfront⟩

/-- **The last phase that covers a sample decides.**  Let all phases of an envelope have a
window, and no curve fail.  The envelope has no value exactly if no phase covers the sample,
and otherwise the value that the last phase which does gives by itself.  So the value stays
when other sound phases, fewer or more, are put before this one, and when a phase is taken
out that does not cover the sample; a phase that is added at the end decides where it covers
the sample, and makes no difference elsewhere.  As a modulator the envelope has one minus
its value. -/
theorem last_match_decides (e : Envelope α) (sample : Int) (duration : α)
    (h : ∀ p ∈ e.phases, p.IsSound sample duration) :
    ∃ value, e.valueAt sample duration = .ok value ∧
      (value = none ↔ ∀ p ∈ e.phases, ¬p.Covers sample duration) ∧
      (∀ front p back, e.phases = front ++ p :: back → p.Covers sample duration →
        (∀ q ∈ back, ¬q.Covers sample duration) →
        ∃ v, p.Gives sample duration v ∧ value = some v ∧
          ∀ front' : List (Phase α), (∀ q ∈ front', q.IsSound sample duration) →
            (Envelope.mk e.name (front' ++ p :: back)).valueAt sample duration = .ok value) ∧
      (∀ front q back, e.phases = front ++ q :: back → ¬q.Covers sample duration →
        (Envelope.mk e.name (front ++ back)).valueAt sample duration = .ok value) ∧
      (∀ q : Phase α, q.IsSound sample duration →
        (q.Covers sample duration → ∃ v, q.Gives sample duration v ∧
          (Envelope.mk e.name (e.phases ++ [q])).valueAt sample duration = .ok (some v)) ∧
        (¬q.Covers sample duration →
          (Envelope.mk e.name (e.phases ++ [q])).valueAt sample duration = .ok value)) ∧
      ∀ (ctx : Context α) (s : α), ctx.get? Context.sampleName = some s →
        Scalar.truncate s = .ok sample → ctx.get? Context.durationName = some duration →
        e.modulation ctx = .ok (value.map fun v => 1.0 - v) := by
  obtain ⟨value, hvalue⟩ := exists_scan h none
  refine ⟨value, hvalue, ⟨?_, ?_⟩, ?_, ?_, ?_, ?_⟩
  · rintro rfl p hp hcovers
    obtain ⟨v, hv⟩ := exists_scan_of_covers h hp hcovers
    rw [hvalue] at hv
    cases hv
  · intro hnone
    have hscan : scan sample duration none e.phases = .ok none :=
      scan_of_not_covers fun p hp => ⟨(h p hp).placed, hnone p hp⟩
    rw [hvalue] at hscan
    exact Except.ok.inj hscan
  · intro front p back hphases hcovers hback
    rw [hphases] at h hvalue
    obtain ⟨hfront, hrest⟩ := List.forall_mem_append.mp h
    obtain ⟨hp, hlater⟩ := List.forall_mem_cons.mp hrest
    obtain ⟨v, hv, hscan⟩ :=
      exists_scan_of_last hp hcovers fun q hq => ⟨(hlater q hq).placed, hback q hq⟩
    rw [hscan front hfront] at hvalue
    cases hvalue
    exact ⟨v, hv, rfl, hscan⟩
  · intro front q back hphases hq
    rw [valueAt, ← scan_without (h q (by simp [hphases])).placed hq, ← hphases]
    exact hvalue
  · intro q hq
    constructor
    · intro hcovers
      obtain ⟨v, hv, hscan⟩ := exists_scan_of_last hq hcovers fun _ hr => absurd hr List.not_mem_nil
      exact ⟨v, hv, hscan e.phases h⟩
    · intro hcovers
      rw [valueAt, scan_without hq.placed hcovers, List.append_nil]
      exact hvalue
  · intro ctx s hsample htruncate hduration
    rw [modulation, hsample]
    simp only [htruncate, hduration, computed]
    rw [valueAt, hvalue]

/-! ## Overlapping phases -/

/-- Four phases: one covers the whole note, one a single sample, one runs backwards, and one
is over before the note begins. -/
def layers : Envelope Float where
  name := .text "e"
  phases := [⟨⟨0.0, 1.0, 0.0, 1.0⟩, .straight⟩, ⟨⟨0.5, 0.5, 1.0, -0.5⟩, .curve .circ .easeOut⟩,
    ⟨⟨0.9, 0.1, 0.0, 1.0⟩, .straight⟩, ⟨⟨-2.0, -1.0, 0.0, 1.0⟩, .straight⟩]

/-- In the middle of a note of ten samples the second phase decides, with the value at its
end. -/
theorem last_match_decides_layers :
    (∀ p ∈ layers.phases, p.IsSound 5 10.0) ∧
      layers.valueAt 5 10.0 = .ok (some (1.0 + -0.5)) := by
  have hsound : ∀ p ∈ layers.phases, p.IsSound 5 10.0 := by
    have hok : ∀ p ∈ layers.phases, (p.valueAt 5 10.0).isOk = true := by decide +kernel
    exact fun p hp => Phase.isSound_of_isOk (hok p hp)
  refine ⟨hsound, ?_⟩
  obtain ⟨value, hvalue, -, hdecides, -⟩ := last_match_decides layers 5 10.0 hsound
  have houtside {q : Phase Float} {first last : Int} (hwindow : q.window 10.0 = .ok (first, last))
      (h : ¬(first ≤ 5 ∧ 5 ≤ last)) : ¬q.Covers 5 10.0 := by
    rintro ⟨first', last', hwindow', hinside⟩
    cases hwindow.symm.trans hwindow'
    exact h hinside
  have hwindow : (⟨⟨0.5, 0.5, 1.0, -0.5⟩, .curve .circ .easeOut⟩ : Phase Float).window 10.0 =
      .ok (5, 5) := by decide +kernel
  have hbackward : (⟨⟨0.9, 0.1, 0.0, 1.0⟩, .straight⟩ : Phase Float).window 10.0 =
      .ok (9, 1) := by decide +kernel
  have hbefore : (⟨⟨-2.0, -1.0, 0.0, 1.0⟩, .straight⟩ : Phase Float).window 10.0 =
      .ok (0, 0) := by decide +kernel
  obtain ⟨v, hv, rfl, -⟩ := hdecides [_] _ [_, _] rfl ⟨5, 5, hwindow, le_rfl, le_rfl⟩
    (List.forall_mem_cons.mpr ⟨houtside hbackward (by decide),
      List.forall_mem_singleton.mpr (houtside hbefore (by decide))⟩)
  cases hv with
  | atEnd window at_ => exact hvalue
  | onCurve window _ _ length =>
    cases hwindow.symm.trans window
    exact absurd rfl length

end Envelope

end Orchestrion

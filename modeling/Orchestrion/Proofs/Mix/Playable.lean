import Orchestrion.Proofs.Mix.Performance
import Orchestrion.Proofs.Scalar.Counting

set_option autoImplicit false

/-!
# Notes that can be played

A note sounds on an instrument when its numbers can be computed, the envelopes of the
instrument have values, and the clip that it asks for can be had and kept.  This is a
matter of the note, the instrument and the files of the banks; whatever has been played
before, nothing else can go wrong.
-/

namespace Orchestrion

variable {α : Type} [Scalar α]

/-! ## Values of a context -/

namespace Context

theorem get?_sampleName_of_ofSample {sample duration pitch rate : Int} {frequency : α}
    {ctx : Context α} (h : ofSample sample duration pitch frequency rate = .ok ctx) :
    ∃ x : α, Scalar.ofInt sample = .ok x ∧ ctx.get? sampleName = some x := by
  obtain ⟨_, y, _, _, _, _, _, hy, _, _, rfl⟩ := exists_of_ofSample h
  exact ⟨y, hy, rfl⟩

variable [Scalar.Counts α]

/-- An integer in a context can be read back. -/
theorem intValue_of_get? {ctx : Context α} {name : String} {n : Int} {x : α}
    (hget : ctx.get? name = some x) (hx : Scalar.ofInt n = .ok x) :
    ∃ k, Bank.intValue ctx name = .ok k ∧ (0 ≤ n → 0 ≤ k) := by
  obtain ⟨k, hk, hnonneg⟩ := Scalar.Counts.truncate_ofInt n x hx
  refine ⟨k, ?_, hnonneg⟩
  simp only [Bank.intValue, hget, hk, computed]

end Context

/-! ## Sources -/

section

variable [Scalar.Counts α] {index : Nat} {duration pitch rate : Int} {frequency : α}
  {ctx : Context α}

/-- Every source has a value, or none, at each sample of a note. -/
theorem Source.exists_carrier (src : Source α)
    (hctx : Context.ofSample index duration pitch frequency rate = .ok ctx) (st : Stage α) :
    ∃ value?, (src.carrier ctx st).1 = .ok value? := by
  cases src with
  | waveform w => exact ⟨_, rfl⟩
  | envelope e => exact ⟨_, rfl⟩
  | bank slot =>
    unfold Source.carrier
    cases hb : st.rack[slot]? with
    | none => exact ⟨none, by simp only [hb]⟩
    | some b =>
      obtain ⟨x, hx, hget⟩ := Context.get?_pitchName_of_ofSample hctx
      obtain ⟨p, hp, _⟩ := Context.intValue_of_get? hget hx
      obtain ⟨y, hy, hget⟩ := Context.get?_sampleName_of_ofSample hctx
      obtain ⟨k, hk, hnonneg⟩ := Context.intValue_of_get? hget hy
      simp only [hb, Bank.carrier_fst, hp]
      cases b.cache.find? p with
      | none => exact ⟨none, rfl⟩
      | some clip =>
        have hclip := Bank.sampleOf_of_nonneg clip (hnonneg (Int.natCast_nonneg index))
        simp only [Bank.played, hk, hclip]
        exact ⟨_, rfl⟩

omit [Scalar.Counts α] in
/-- Only the envelopes among the modulators can fail. -/
theorem Instrument.exists_shape {modulators : List (Modulator α)}
    (h : ∀ m ∈ modulators, ∀ e, m.source = .envelope e → ∃ value?, e.modulation ctx = .ok value?)
    (value : α) : ∃ value?, shape ctx value modulators = .ok value? := by
  suffices hmodulate : ∃ value', modulate ctx value modulators = .ok value' by
    obtain ⟨value', hmodulate⟩ := hmodulate
    exact ⟨_, by rw [shape, hmodulate]⟩
  induction modulators generalizing value with
  | nil => exact ⟨value, rfl⟩
  | cons m rest ih =>
    obtain ⟨hm, hrest⟩ := List.forall_mem_cons.mp h
    obtain ⟨x?, hx⟩ : ∃ x?, m.source.modulation ctx = .ok x? := by
      cases hsource : m.source with
      | waveform w => exact ⟨_, rfl⟩
      | envelope e => exact hm e hsource
      | bank slot => exact ⟨_, rfl⟩
    unfold modulate
    rw [hx]
    cases x? <;> exact ih hrest _

end

/-- Preparing a pitch finds its clip, if it can be had and kept. -/
theorem Bank.prime_ok {load : ClipLoader α} {b : Bank α} {pitch : Int} {clip? : Option (Clip α)}
    (hclip : b.clipOf load pitch = .ok clip?) (hroom : b.cache.limitHolds = true) :
    (b.prime load pitch).1 = .ok () := by
  by_cases hcached : b.cache.contains pitch = true
  · rw [prime_of_contains hcached]
  · obtain ⟨trace, _, ⟨fault, hfault, _⟩ | ⟨_, hprime⟩ | ⟨clip, _, hprime⟩⟩ :=
      prime_of_absent load (Bool.not_eq_true _ ▸ hcached)
    · rw [hclip] at hfault
      cases hfault
    · rw [hprime]
    · rw [hprime, store, hroom]
      rfl

namespace Session

variable {s : Session α} {i : Instrument α} {n : Note} {rack rack' : List (Bank α)}

/-- Whether nothing stands in the way of a note on an instrument. -/
structure Playable (s : Session α) (rack : List (Bank α)) (i : Instrument α) (n : Note) :
    Prop where
  /-- the note can be prepared -/
  pitch : ∃ ctx : Context α, Context.ofPitch n.pitch = .ok ctx
  /-- each sample has its values, and the envelopes have theirs -/
  samples : ∃ frequency : α, n.frequency = .ok frequency ∧ ∀ index < n.duration.toNat,
    ∃ ctx, Context.ofSample index n.duration n.pitch frequency s.sampleRate = .ok ctx ∧
      ∀ m ∈ i.modulators, ∀ e, m.source = .envelope e → ∃ value?, e.modulation ctx = .ok value?
  /-- a bank finds the clip of the pitch, and may keep it -/
  clips : ∀ slot, i.carrier = .bank slot → ∀ b ∈ rack[slot]?, b.cache.limitHolds = true ∧
    ∀ (ctx : Context α) pitch, Context.ofPitch n.pitch = .ok ctx →
      Bank.intValue ctx Context.pitchName = .ok pitch →
      ∃ clip?, b.clipOf s.load pitch = .ok clip?

/-- What has been played takes nothing away. -/
theorem Playable.of_frames (h : s.Playable rack i n)
    (hframes : rack'.map Bank.frame = rack.map Bank.frame) : s.Playable rack' i n := by
  refine ⟨h.pitch, h.samples, fun slot hcarrier b hb => ?_⟩
  have hslot : rack'[slot]?.map Bank.frame = rack[slot]?.map Bank.frame := by
    rw [← List.getElem?_map, ← List.getElem?_map, hframes]
  rw [Option.mem_def.mp hb] at hslot
  obtain ⟨b', hb', hframe⟩ := Option.map_eq_some_iff.mp hslot.symm
  obtain ⟨hfiles, hlimit⟩ := Prod.mk.inj hframe
  obtain ⟨hroom, hclips⟩ := h.clips slot hcarrier b' hb'
  refine ⟨?_, fun ctx pitch hctx hpitch => ?_⟩
  · rwa [PitchCache.limitHolds, ← hlimit]
  · rw [← Bank.clipOf_congr hfiles]
    exact hclips ctx pitch hctx hpitch

variable [Scalar.Counts α]

theorem exists_sampleAt {frequency : α} {index : Nat} {ctx : Context α}
    (hctx : Context.ofSample index n.duration n.pitch frequency s.sampleRate = .ok ctx)
    (henvelopes : ∀ m ∈ i.modulators, ∀ e, m.source = .envelope e →
      ∃ value?, e.modulation ctx = .ok value?) (st : Stage α) :
    ∃ x, (s.sampleAt i n frequency st index).1 = .ok x := by
  obtain ⟨value?, hvalue⟩ := i.carrier.exists_carrier hctx st
  unfold sampleAt Instrument.sample
  simp only [hctx, computed]
  revert hvalue
  rcases i.carrier.carrier ctx st with ⟨r, st₁⟩
  rintro (rfl : r = .ok value?)
  cases value? with
  | none => exact ⟨_, rfl⟩
  | some value =>
    obtain ⟨shaped?, hshape⟩ := Instrument.exists_shape henvelopes value
    simp only [hshape]
    cases shaped? <;> exact ⟨_, rfl⟩

omit [Scalar.Counts α] in
theorem exists_samplesFrom {frequency : α} (found : List α) {indices : List Nat}
    (h : ∀ index ∈ indices, ∀ st, ∃ x, (s.sampleAt i n frequency st index).1 = .ok x)
    (st : Stage α) : ∃ audio, (s.samplesFrom i n frequency st found indices).1 = .ok audio := by
  induction indices generalizing found st with
  | nil => exact ⟨_, rfl⟩
  | cons index rest ih =>
    obtain ⟨hfirst, hrest⟩ := List.forall_mem_cons.mp h
    obtain ⟨x, hx⟩ := hfirst st
    unfold samplesFrom
    revert hx
    rcases s.sampleAt i n frequency st index with ⟨r, st₁⟩
    rintro (rfl : r = .ok x)
    exact ih (x :: found) hrest st₁

/-- A bank that finds the clip of a note is prepared for it. -/
theorem Playable.exists_prime {st : Stage α} (h : s.Playable st.rack i n) {ctx : Context α}
    (hctx : Context.ofPitch n.pitch = .ok ctx) : (i.carrier.prime s.load ctx st).1 = .ok () := by
  unfold Source.prime
  split
  · rename_i slot hcarrier
    cases hb : st.rack[slot]? with
    | none => rfl
    | some b =>
      obtain ⟨hroom, hclips⟩ := h.clips slot hcarrier b hb
      obtain ⟨x, hx, hget⟩ := Context.get?_pitchName_of_ofPitch hctx
      obtain ⟨pitch, hpitch, _⟩ := Context.intValue_of_get? hget hx
      obtain ⟨clip?, hclip⟩ := hclips ctx pitch hctx hpitch
      simp only [Bank.primeIn, hpitch]
      exact Bank.prime_ok hclip hroom
  · rfl

/-- **A note that can be played is rendered**, on any stage. -/
theorem Playable.exists_renderNote {st : Stage α} (h : s.Playable st.rack i n) :
    ∃ audio, (s.renderNote i n st).1 = .ok audio := by
  obtain ⟨ctx, hctx⟩ := h.pitch
  obtain ⟨frequency, hfrequency, hsamples⟩ := h.samples
  have hprime : (i.prime s.load ctx st).1 = .ok () := h.exists_prime hctx
  unfold renderNote
  simp only [hctx, hfrequency, computed]
  revert hprime
  rcases i.prime s.load ctx st with ⟨r, st₁⟩
  rintro (rfl : r = .ok ())
  refine exists_samplesFrom [] (fun index hindex st => ?_) st₁
  obtain ⟨ctx', hctx', henvelopes⟩ := hsamples index (List.mem_range.mp hindex)
  exact exists_sampleAt hctx' henvelopes st

end Session

end Orchestrion

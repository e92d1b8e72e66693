import Orchestrion.Proofs.Mix.Bus
import Orchestrion.Proofs.Mix.Padding
import Orchestrion.Proofs.Signal.Confined

set_option autoImplicit false

/-!
# Playing and mixing

An output can be made in two steps: the notes on its channels are played one after the
other, which takes the banks and what the policy says about notes that no instrument
plays, and what has sounded is mixed, which takes neither.  When the notes lie within
the output this is the same as adding each note to the mix at once.
-/

namespace Orchestrion

variable {α : Type} [Scalar α]

namespace Session

variable {s s' : Session α} {i : Instrument α} {n n' : Note} {st st' : Stage α}

/-! ## Rendering a note -/

theorem confined_sampleAt (s : Session α) (i : Instrument α) (n : Note) (frequency : α)
    (index : Nat) : Confined fun st => s.sampleAt i n frequency st index := by
  cases hctx : computed (Context.ofSample index n.duration n.pitch frequency s.sampleRate) with
  | error fault =>
    intro rack
    refine ⟨_, rack, [], .of_result ((sourced_computed _).error hctx) fun trace => ?_⟩
    simp only [sampleAt, hctx]
  | ok ctx =>
    refine (i.confined_sample ctx).andThen (fun fault st st' h => ?_) (fun x? => ?_)
    · simp only [sampleAt, hctx, h]
    · cases x? with
      | none => exact ⟨_, .const (sourced_ok 0.0), fun st st' h => by simp only [sampleAt, hctx, h]⟩
      | some x =>
        exact ⟨_, .const (sourced_ok (Scalar.single x)),
          fun st st' h => by simp only [sampleAt, hctx, h]⟩

theorem confined_samplesFrom (s : Session α) (i : Instrument α) (n : Note) (frequency : α)
    (found : List α) (indices : List Nat) :
    Confined fun st => s.samplesFrom i n frequency st found indices := by
  induction indices generalizing found with
  | nil => exact .const (sourced_ok found.reverse)
  | cons index rest ih =>
    refine (s.confined_sampleAt i n frequency index).andThen (fun fault st st' h => ?_)
      (fun x => ⟨_, ih (x :: found), fun st st' h => ?_⟩)
    · simp only [samplesFrom, h]
    · simp only [samplesFrom, h]

/-- Rendering a note sees only the banks. -/
theorem confined_renderNote (s : Session α) (i : Instrument α) (n : Note) :
    Confined (s.renderNote i n) := by
  cases hctx : computed (Context.ofPitch (α := α) n.pitch) with
  | error fault =>
    intro rack
    refine ⟨_, rack, [], .of_result ((sourced_computed _).error hctx) fun trace => ?_⟩
    simp only [renderNote, hctx]
  | ok ctx =>
    refine (i.carrier.confined_prime s.load ctx).andThen (fun fault st st' h => ?_) (fun _ => ?_)
    · simp only [renderNote, hctx, Instrument.prime, h]
    · cases hfrequency : computed (n.frequency (α := α)) with
      | error fault =>
        refine ⟨_, .const ((sourced_computed _).error hfrequency), fun st st' h => ?_⟩
        simp only [renderNote, hctx, Instrument.prime, h, hfrequency]
      | ok frequency =>
        refine ⟨_, s.confined_samplesFrom i n frequency [] (List.range n.duration.toNat),
          fun st st' h => ?_⟩
        simp only [renderNote, hctx, Instrument.prime, h, hfrequency]

/-- Samples that are alike one by one make the same audio. -/
theorem samplesFrom_of_sampleAt {i' : Instrument α} {frequency : α} {indices : List Nat}
    (h : ∀ index st, s.sampleAt i n frequency st index = s'.sampleAt i' n' frequency st index)
    (found : List α) :
    s.samplesFrom i n frequency st found indices =
      s'.samplesFrom i' n' frequency st found indices := by
  induction indices generalizing st found with
  | nil => rfl
  | cons index rest ih =>
    unfold samplesFrom
    rw [h]
    rcases s'.sampleAt i' n' frequency st index with ⟨fault | x, st₁⟩
    · rfl
    · exact ih (x :: found)

section

variable (hload : s.load = s'.load) (hrate : s.sampleRate = s'.sampleRate)
  (hpitch : n.pitch = n'.pitch) (hduration : n.duration = n'.duration)

include hrate hpitch hduration

theorem sampleAt_congr (frequency : α) (index : Nat) :
    s.sampleAt i n frequency st index = s'.sampleAt i n' frequency st index := by
  unfold sampleAt
  rw [hrate, hpitch, hduration]

theorem samplesFrom_congr (frequency : α) (found : List α) (indices : List Nat) :
    s.samplesFrom i n frequency st found indices =
      s'.samplesFrom i n' frequency st found indices :=
  samplesFrom_of_sampleAt (fun index _ => sampleAt_congr hrate hpitch hduration frequency index)
    found

include hload

/-- A note is rendered by its pitch and its length, with the clips and the sample rate of
the session. -/
theorem renderNote_congr : s.renderNote i n st = s'.renderNote i n' st := by
  unfold renderNote Note.frequency
  simp only [hload, hpitch, hduration, samplesFrom_congr hrate hpitch hduration]

end

/-! ## Playing -/

/-- The warning about a note that is left out. -/
def skipWarning (n : Note) : Warning := .skippedNote n.pitch n.start n.program

/-- What sounds of a note on an instrument: nothing if it has no length. -/
def soundOn (s : Session α) (i : Instrument α) (n : Note) (st : Stage α) :
    Except Fault (List (Part α)) × Stage α :=
  if n.duration ≤ 0 then (.ok [], st)
  else
    match s.renderNote i n st with
    | (.error fault, st) => (.error fault, st)
    | (.ok audio, st) => (.ok [⟨n, audio⟩], st)

/-- A note that is played, and what sounds of it. -/
def sound (s : Session α) (n : Note) (st : Stage α) : Except Fault (List (Part α)) × Stage α :=
  match s.arrangement.findInstrument n.program with
  | none =>
    if s.strict then (.error (.missingInstrument n.program), st)
    else (.ok [], st.tell [.warning (skipWarning n)])
  | some i => s.soundOn i n st

/-- Notes that are played one after the other, and what sounds of them. -/
def perform (s : Session α) (st : Stage α) : List Note → Except Fault (List (Part α)) × Stage α
  | [] => (.ok [], st)
  | n :: rest =>
    match s.sound n st with
    | (.error fault, st) => (.error fault, st)
    | (.ok parts, st) =>
      match s.perform st rest with
      | (.error fault, st) => (.error fault, st)
      | (.ok more, st) => (.ok (parts ++ more), st)

/-- What sounds on an instrument is a matter of the banks. -/
theorem confined_soundOn (s : Session α) (i : Instrument α) (n : Note) :
    Confined (s.soundOn i n) := by
  by_cases hshort : n.duration ≤ 0
  · have hsilent : s.soundOn i n = fun st => (.ok [], st) := by
      funext st
      rw [soundOn, if_pos hshort]
    rw [hsilent]
    exact .const (sourced_ok [])
  · refine (s.confined_renderNote i n).andThen (fun fault st st' h => ?_)
      (fun audio => ⟨_, .const (sourced_ok [⟨n, audio⟩]), fun st st' h => ?_⟩)
    · rw [soundOn, if_neg hshort, h]
    · rw [soundOn, if_neg hshort, h]

theorem soundOn_congr (hload : s.load = s'.load) (hrate : s.sampleRate = s'.sampleRate) :
    s.soundOn i n st = s'.soundOn i n st := by
  rw [soundOn, soundOn, renderNote_congr hload hrate rfl rfl]

theorem perform_cons_of_error {fault : Fault} (h : s.sound n st = (.error fault, st'))
    (rest : List Note) : s.perform st (n :: rest) = (.error fault, st') := by
  rw [perform, h]

theorem perform_cons_of_ok {parts : List (Part α)} (h : s.sound n st = (.ok parts, st'))
    (rest : List Note) :
    s.perform st (n :: rest) =
      ((s.perform st' rest).1.map fun more => parts ++ more, (s.perform st' rest).2) := by
  rw [perform, h]
  simp only
  rcases s.perform st' rest with ⟨fault | more, st₁⟩ <;> rfl

theorem exists_of_perform_cons {rest : List Note} {parts : List (Part α)}
    (h : s.perform st (n :: rest) = (.ok parts, st')) :
    ∃ front st₁ more, s.sound n st = (.ok front, st₁) ∧ s.perform st₁ rest = (.ok more, st') ∧
      parts = front ++ more := by
  rw [perform] at h
  cases hsound : s.sound n st with
  | mk result st₁ =>
    rw [hsound] at h
    cases result with
    | error fault => cases h
    | ok front =>
      cases hrest : s.perform st₁ rest with
      | mk result st₂ =>
        simp only [hrest] at h
        cases result with
        | error fault => cases h
        | ok more =>
          cases h
          exact ⟨front, st₁, more, rfl, hrest, rfl⟩

/-- What is played without a fault is what the notes play. -/
theorem plays_of_perform {notes : List Note} {parts : List (Part α)}
    (h : s.perform st notes = (.ok parts, st')) : s.Plays st notes parts st' := by
  induction notes generalizing st parts with
  | nil =>
    cases h
    exact .nil _
  | cons n rest ih =>
    obtain ⟨front, st₁, more, hsound, hrest, rfl⟩ := exists_of_perform_cons h
    have hafter := ih hrest
    rw [sound] at hsound
    cases hfind : s.arrangement.findInstrument n.program with
    | none =>
      rw [hfind] at hsound
      cases hstrict : s.strict with
      | true => simp [hstrict] at hsound
      | false =>
        simp only [hstrict, Bool.false_eq_true, if_false] at hsound
        cases hsound
        exact .skipped hfind hstrict hafter
    | some i =>
      rw [hfind] at hsound
      by_cases hshort : n.duration ≤ 0
      · simp only [soundOn, if_pos hshort] at hsound
        cases hsound
        exact .empty hfind hshort hafter
      · simp only [soundOn, if_neg hshort] at hsound
        cases hrender : s.renderNote i n st with
        | mk result st₂ =>
          rw [hrender] at hsound
          cases result with
          | error fault => cases hsound
          | ok audio =>
            cases hsound
            exact .sounding hfind (by omega) hrender hafter

end Session

/-! ## Mixing -/

/-- A note that comes so many samples later. -/
def Note.later (k : Nat) (n : Note) : Note :=
  { n with start := n.start + k, finish := n.finish + k }

/-- What sounds, so many samples later. -/
def Part.later (k : Nat) (p : Part α) : Part α := ⟨p.note.later k, p.audio⟩

omit [Scalar α] in
@[simp] theorem map_later_zero (parts : List (Part α)) : parts.map (Part.later 0) = parts := by
  have hlater : ∀ p : Part α, p.later 0 = p := fun p => by simp [Part.later, Note.later]
  rw [List.map_congr_left fun p _ => hlater p, List.map_id']

/-- What lies within some slots, from the start of its note on. -/
def Part.Within (length : Nat) (p : Part α) : Prop :=
  0 ≤ p.note.start ∧ p.note.start.toNat + p.audio.length ≤ length

namespace Mix

/-- Parts that are added to a mix, each from the start of its note on. -/
def hear (mix : Mix α) (parts : List (Part α)) : Mix α :=
  parts.foldl (fun mix p => mix.add p.note.start.toNat p.audio) mix

theorem hear_append (mix : Mix α) (parts more : List (Part α)) :
    mix.hear (parts ++ more) = (mix.hear parts).hear more :=
  List.foldl_append

@[simp] theorem size_hear (mix : Mix α) (parts : List (Part α)) :
    (mix.hear parts).slots.size = mix.slots.size := by
  induction parts generalizing mix with
  | nil => rfl
  | cons p rest ih => rw [hear, List.foldl_cons, ← hear, ih, size_add]

/-- Silence around a mix delays what is added to it, and nothing else. -/
theorem hear_padded (before after : Nat) {mix : Mix α} {parts : List (Part α)}
    (h : ∀ p ∈ parts, p.Within mix.slots.size) :
    (mix.padded before after).hear (parts.map (Part.later before)) =
      (mix.hear parts).padded before after := by
  induction parts generalizing mix with
  | nil => rfl
  | cons p rest ih =>
    obtain ⟨⟨hstart, hroom⟩, hrest⟩ := List.forall_mem_cons.mp h
    have hfirst : (p.later before).note.start.toNat = before + p.note.start.toNat := by
      simp only [Part.later, Note.later]
      omega
    have hadd := add_padded before after hroom
    rw [← size_add mix p.note.start.toNat p.audio] at hrest
    rw [List.map_cons, hear, List.foldl_cons, ← hear, hfirst]
    simp only [Part.later] at hadd ⊢
    rw [hadd]
    exact ih hrest

end Mix

namespace Session

variable {s : Session α} {n : Note} {st : Stage α}

/-- A desk at which parts have been added. -/
def Desk.hear (desk : Desk α) (parts : List (Part α)) (skipped : Nat) : Desk α :=
  ⟨desk.mix.hear parts, desk.rendered + parts.length, desk.skipped + skipped⟩

/-- Adding a note is playing it and adding what sounds. -/
theorem addNote_eq [Scalar.Faithful α] {length : Nat} {desk : Desk α}
    (hsize : desk.mix.slots.size = length) (hfits : Fits length n) :
    s.addNote desk n st =
      ((s.sound n st).1.map fun parts => desk.hear parts (if s.isSkipped n then 1 else 0),
        (s.sound n st).2) := by
  rw [addNote, sound]
  cases hfind : s.arrangement.findInstrument n.program with
  | none =>
    have hskipped : s.isSkipped n = true := by rw [isSkipped, hfind]; rfl
    rw [if_pos hskipped]
    cases s.strict <;> rfl
  | some i =>
    have hplayed : ¬s.isSkipped n = true := by rw [isSkipped, hfind]; exact Bool.false_ne_true
    rw [if_neg hplayed]
    simp only [soundOn]
    by_cases hshort : n.duration ≤ 0
    · rw [if_pos hshort, if_pos hshort]
      rfl
    · rw [if_neg hshort, if_neg hshort]
      cases s.renderNote i n st with
      | mk result st₁ =>
        cases result with
        | error fault => rfl
        | ok audio =>
          simp only [hsize, placeOf?_of_fits hfits (by omega)]
          rfl

/-- Adding notes is playing them and adding what sounds. -/
theorem addNotes_eq [Scalar.Faithful α] {length : Nat} {desk : Desk α} {notes : List Note}
    (hsize : desk.mix.slots.size = length) (hfits : ∀ n ∈ notes, Fits length n) :
    s.addNotes desk st notes =
      ((s.perform st notes).1.map fun parts => desk.hear parts (notes.countP s.isSkipped),
        (s.perform st notes).2) := by
  induction notes generalizing desk st with
  | nil => rfl
  | cons n rest ih =>
    rw [addNotes, addNote_eq hsize (hfits n List.mem_cons_self), perform]
    cases s.sound n st with
    | mk result st₁ =>
      cases result with
      | error fault => rfl
      | ok front =>
        have hsize' (skipped : Nat) : (desk.hear front skipped).mix.slots.size = length := by
          rw [Desk.hear, Mix.size_hear, hsize]
        simp only [Except.map, ih (hsize' _) fun m hm => hfits m (List.mem_cons_of_mem n hm)]
        cases s.perform st₁ rest with
        | mk result st₂ =>
          cases result with
          | error fault => rfl
          | ok more =>
            simp only [Desk.hear, Mix.hear_append, List.length_append, List.countP_cons,
              Nat.add_assoc, Nat.add_comm (rest.countP _)]

end Session

/-! ## Outputs -/

/-- The notes that are heard on an output. -/
def OutputBus.heard (bus : OutputBus) (notes : List Note) : List Note :=
  notes.filter fun n => bus.routes n.channel

namespace Session

variable {s : Session α} {st st' : Stage α} {routed : List Note} {parts : List (Part α)}

/-- Notes that neither begin nor end before the first sample. -/
def InTime (notes : List Note) : Prop := ∀ n ∈ notes, 0 ≤ n.start ∧ 0 ≤ n.finish

omit [Scalar α] in
theorem inTime_heard {notes : List Note} {bus : OutputBus}
    (h : ∀ n ∈ notes, bus.routes n.channel = true → 0 ≤ n.start ∧ 0 ≤ n.finish) :
    InTime (bus.heard notes) := by
  intro n hn
  obtain ⟨hmem, hroutes⟩ := List.mem_filter.mp hn
  exact h n hmem hroutes

omit [Scalar α] in
theorem lastEnd_nonneg (h : InTime routed) : 0 ≤ lastEnd routed := by
  rcases lastEnd_eq routed with hzero | ⟨n, hn, hfinish⟩
  · omega
  · have := (h n hn).2
    omega

omit [Scalar α] in
theorem InTime.fits (h : InTime routed) : ∀ n ∈ routed, Fits (lastEnd routed).toNat n := by
  intro n hn
  have hle := finish_le_lastEnd hn
  exact ⟨(h n hn).1, (h n hn).2, by omega⟩

/-- The mix of what sounds on an output. -/
def mixdown (routed : List Note) (parts : List (Part α)) : Mix α :=
  (Mix.silence (lastEnd routed).toNat).hear parts

/-- The output of what sounds on it. -/
def takeOf (s : Session α) (bus : OutputBus) (routed : List Note) (parts : List (Part α)) :
    Take α :=
  ⟨bus, Pcm.ofSlots (mixdown routed parts).slots (mixdown routed parts).peak,
    (mixdown routed parts).peak, parts.length, routed.countP s.isSkipped⟩

@[simp] theorem size_samples_takeOf (s : Session α) (bus : OutputBus) (routed : List Note)
    (parts : List (Part α)) :
    (s.takeOf bus routed parts).samples.size = (lastEnd routed).toNat := by
  rw [takeOf, Pcm.size_ofSlots, mixdown, Mix.size_hear]
  exact Array.size_replicate

variable [Scalar.Faithful α]

theorem addNotes_silence (h : InTime routed) :
    s.addNotes ⟨.silence (lastEnd routed).toNat, 0, 0⟩ st routed =
      ((s.perform st routed).1.map fun parts =>
        ⟨mixdown routed parts, parts.length, routed.countP s.isSkipped⟩,
        (s.perform st routed).2) := by
  have hsize : (⟨.silence (lastEnd routed).toNat, 0, 0⟩ : Desk α).mix.slots.size =
      (lastEnd routed).toNat := Array.size_replicate
  rw [addNotes_eq hsize h.fits]
  simp only [Desk.hear, Nat.zero_add]
  rfl

/-- Rendering an output is playing its notes and mixing what sounds. -/
theorem renderBus_eq {notes : List Note} {bus : OutputBus} (h : InTime (bus.heard notes)) :
    s.renderBus notes bus st =
      ((s.perform st (bus.heard notes)).1.map (s.takeOf bus (bus.heard notes)),
        (s.perform st (bus.heard notes)).2) := by
  rw [renderBus, ← OutputBus.heard]
  generalize bus.heard notes = routed at h
  simp only [if_neg (Int.not_lt.mpr (lastEnd_nonneg h)), addNotes_silence h]
  rcases s.perform st routed with ⟨fault | parts, st₁⟩ <;> rfl

/-- The peak of what sounds is finite. -/
theorem exists_value_peak (h : InTime routed) (hplay : s.perform st routed = (.ok parts, st')) :
    ∃ p : ℝ, Scalar.Faithful.value (mixdown routed parts).peak = some ↑p := by
  have hsilence : Mixes (lastEnd routed).toNat ([] : List (Part α))
      ⟨.silence (lastEnd routed).toNat, 0, 0⟩ :=
    ⟨Mix.Holds.silence _, fun _ _ _ hx => absurd hx List.not_mem_nil, rfl⟩
  have hadd : s.addNotes ⟨.silence (lastEnd routed).toNat, 0, 0⟩ st routed = _ :=
    addNotes_silence h
  rw [hplay] at hadd
  obtain ⟨more, _, hmixes, _⟩ := addNotes_mixes hadd h.fits hsilence
  obtain ⟨p, hp, _⟩ := hmixes.holds.exists_value_peak hmixes.numbers
  exact ⟨p, hp⟩

/-- What sounds lies within the output, from the start of its note on. -/
theorem Plays.within {length : Nat} {notes : List Note} (h : s.Plays st notes parts st')
    (hfits : ∀ n ∈ notes, Fits length n) :
    ∀ p ∈ parts, p.Within length := by
  induction h with
  | nil st => exact fun p hp => absurd hp List.not_mem_nil
  | skipped _ _ _ ih => exact ih fun n hn => hfits n (List.mem_cons_of_mem _ hn)
  | empty _ _ _ ih => exact ih fun n hn => hfits n (List.mem_cons_of_mem _ hn)
  | @sounding _ _ _ n _ _ _ audio _ hlong hrendered _ ih =>
    refine List.forall_mem_cons.mpr ⟨?_, ih fun m hm => hfits m (List.mem_cons_of_mem n hm)⟩
    obtain ⟨hlength, _⟩ := renderNote_numbers hrendered
    obtain ⟨hstart, hfinish, hlast⟩ := hfits n List.mem_cons_self
    rw [Note.duration] at hlength hlong
    refine ⟨hstart, ?_⟩
    simp only
    omega

/-- The same parts on an output that is longer, before the first of them or after the
last one: the peak is the same, and the samples have silence around them. -/
theorem mixdown_padded {routed' : List Note} {before after : Nat} (h : InTime routed)
    (hplay : s.perform st routed = (.ok parts, st'))
    (hlength : (lastEnd routed').toNat = before + (lastEnd routed).toNat + after) :
    let mix := mixdown routed parts
    let mix' := mixdown routed' (parts.map (Part.later before))
    mix'.peak = mix.peak ∧ Pcm.ofSlots mix'.slots mix'.peak =
      Array.replicate before 0 ++ Pcm.ofSlots mix.slots mix.peak ++ Array.replicate after 0 := by
  intro mix mix'
  have hsize : (Mix.silence (lastEnd routed).toNat : Mix α).slots.size = (lastEnd routed).toNat :=
    Array.size_replicate
  have hwithin := (plays_of_perform hplay).within h.fits
  rw [← hsize] at hwithin
  have hmix : mixdown routed' (parts.map (Part.later before)) =
      (mixdown routed parts).padded before after := by
    rw [mixdown, mixdown, ← Mix.hear_padded before after hwithin, Mix.padded_silence, ← hlength]
  obtain ⟨p, hp⟩ := exists_value_peak h hplay
  simp only [mix, mix', hmix]
  exact ⟨rfl, Pcm.ofSlots_padded before after hp⟩

end Session

end Orchestrion

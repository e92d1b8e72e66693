import Orchestrion.Mix.Session
import Orchestrion.Proofs.Mix.Pcm
import Orchestrion.Proofs.Mix.Slots
import Orchestrion.Proofs.Scalar.Exact

set_option autoImplicit false

/-!
# What is heard on an output

The notes of an output are played in their order, and each one that sounds is added to
the slots between its start and its end.  What has come of an output is told by the
notes that have sounded and their samples: every slot is the sum of the samples that
the notes around it have there.
-/

namespace Orchestrion

open Scalar.Faithful (IsNumber)

variable {α : Type} [Scalar α]

/-! ## Samples of a note -/

namespace Instrument

theorem withinSingle_of_shape {ctx : Context α} {x y : α} {modulators : List (Modulator α)}
    (h : shape ctx x modulators = .ok (some y)) : Scalar.withinSingle y = true := by
  rw [shape] at h
  split at h
  · cases h
  · rename_i value _
    by_cases hwithin : Scalar.withinSingle value = true
    · rw [if_pos hwithin] at h
      cases h
      exact hwithin
    · rw [if_neg hwithin] at h
      cases h

theorem withinSingle_of_sample {i : Instrument α} {ctx : Context α} {st st' : Stage α} {x : α}
    (h : i.sample ctx st = (.ok (some x), st')) : Scalar.withinSingle x = true := by
  rw [sample] at h
  split at h
  · cases h
  · cases h
  · rw [Prod.mk.injEq] at h
    exact withinSingle_of_shape h.1

end Instrument

namespace Session

variable {s : Session α} {i : Instrument α} {n : Note} {frequency : α} {st st' : Stage α}

theorem isNumber_of_sampleAt [Scalar.Faithful α] {index : Nat} {x : α}
    (h : s.sampleAt i n frequency st index = (.ok x, st')) : IsNumber x := by
  rw [sampleAt] at h
  split at h
  · cases h
  · split at h
    · cases h
    · cases h
      exact ⟨0, Scalar.Faithful.value_zero⟩
    · rename_i value _ hsample
      cases h
      obtain ⟨a, ha⟩ :=
        Scalar.Faithful.isNumber_of_withinSingle (Instrument.withinSingle_of_sample hsample)
      exact Scalar.Faithful.value_single _ a ha

theorem samplesFrom_numbers [Scalar.Faithful α] {found audio : List α} {indices : List Nat}
    (h : s.samplesFrom i n frequency st found indices = (.ok audio, st'))
    (hfound : ∀ x ∈ found, IsNumber x) :
    audio.length = found.length + indices.length ∧ ∀ x ∈ audio, IsNumber x := by
  induction indices generalizing st found with
  | nil =>
    cases h
    exact ⟨List.length_reverse, fun x hx => hfound x (List.mem_reverse.mp hx)⟩
  | cons index rest ih =>
    rw [samplesFrom] at h
    cases hsample : s.sampleAt i n frequency st index with
    | mk result st₁ =>
      rw [hsample] at h
      cases result with
      | error fault => cases h
      | ok x =>
        have hcons : ∀ y ∈ x :: found, IsNumber y :=
          List.forall_mem_cons.mpr ⟨isNumber_of_sampleAt hsample, hfound⟩
        obtain ⟨hlength, hnumbers⟩ := ih h hcons
        refine ⟨?_, hnumbers⟩
        rw [hlength, List.length_cons, List.length_cons]
        omega

/-- A note that is the same in all samples, and touches no bank. -/
theorem samplesFrom_constant {x : α} {found : List α} {indices : List Nat}
    (h : ∀ index ∈ indices, s.sampleAt i n frequency st index = (.ok x, st)) :
    s.samplesFrom i n frequency st found indices =
      (.ok (found.reverse ++ List.replicate indices.length x), st) := by
  induction indices generalizing found with
  | nil => rw [samplesFrom, List.length_nil, List.replicate_zero, List.append_nil]
  | cons index rest ih =>
    obtain ⟨hfirst, hrest⟩ := List.forall_mem_cons.mp h
    rw [samplesFrom, hfirst]
    simp only [ih hrest, List.reverse_cons, List.append_assoc, List.singleton_append,
      List.length_cons, List.replicate_succ]

/-- The samples of a note are numbers, as many as the note is long. -/
theorem renderNote_numbers [Scalar.Faithful α] {audio : List α}
    (h : s.renderNote i n st = (.ok audio, st')) :
    audio.length = n.duration.toNat ∧ ∀ x ∈ audio, IsNumber x := by
  rw [renderNote] at h
  split at h
  · cases h
  · split at h
    · cases h
    · split at h
      · cases h
      · have hsamples := samplesFrom_numbers h (fun x hx => nomatch hx)
        rw [List.length_nil, List.length_range, Nat.zero_add] at hsamples
        exact hsamples

end Session

/-! ## Notes that have sounded -/

/-- A note that has sounded, with its samples. -/
structure Part (α : Type) where
  note : Note
  audio : List α

/-- The sample that a note has in a slot between its start and its end. -/
def Part.at? (p : Part α) (i : Nat) : Option α :=
  if p.note.start ≤ i ∧ i < p.note.finish then p.audio[(i - p.note.start).toNat]? else none

/-- The samples that some notes have in a slot, in the order of the notes. -/
def heardBy (parts : List (Part α)) (i : Nat) : List α := parts.filterMap fun p => p.at? i

/-- The notes that are played one after the other on a stage, and those of them that
sound.  A note that no instrument plays is skipped, if this is allowed, and one
without a length does nothing. -/
inductive Session.Plays (s : Session α) : Stage α → List Note → List (Part α) → Stage α → Prop
  | nil (st : Stage α) : s.Plays st [] [] st
  | skipped {st st' : Stage α} {n : Note} {rest : List Note} {parts : List (Part α)}
    (missing : s.arrangement.findInstrument n.program = none) (allowed : s.strict = false)
    (after : s.Plays (st.tell [.warning (.skippedNote n.pitch n.start n.program)]) rest parts st') :
    s.Plays st (n :: rest) parts st'
  | empty {st st' : Stage α} {n : Note} {rest : List Note} {parts : List (Part α)}
    {i : Instrument α} (found : s.arrangement.findInstrument n.program = some i)
    (short : n.duration ≤ 0) (after : s.Plays st rest parts st') :
    s.Plays st (n :: rest) parts st'
  | sounding {st st₁ st' : Stage α} {n : Note} {rest : List Note} {parts : List (Part α)}
    {i : Instrument α} {audio : List α} (found : s.arrangement.findInstrument n.program = some i)
    (long : 0 < n.duration) (rendered : s.renderNote i n st = (.ok audio, st₁))
    (after : s.Plays st₁ rest parts st') : s.Plays st (n :: rest) (⟨n, audio⟩ :: parts) st'

namespace Session

/-- Notes that lie within an output. -/
def Fits (length : Nat) (n : Note) : Prop := 0 ≤ n.start ∧ 0 ≤ n.finish ∧ n.finish ≤ length

theorem placeOf?_of_fits {length : Nat} {n : Note} (h : Fits length n) (hpos : 0 < n.duration) :
    Mix.placeOf? length n = some n.start.toNat := by
  obtain ⟨hstart, hfinish, hlength⟩ := h
  rw [Note.duration] at hpos
  have hfirst : Mix.slotOf length n.start = n.start.toNat := by
    rw [Mix.slotOf, if_neg (by omega)]
    exact Nat.min_eq_left (by omega)
  have hlast : Mix.slotOf length n.finish = n.finish.toNat := by
    rw [Mix.slotOf, if_neg (by omega)]
    exact Nat.min_eq_left (by omega)
  rw [Mix.placeOf?, hfirst, hlast, if_pos]
  rw [Note.duration]
  omega

omit [Scalar α] in
theorem sampleFor_eq_at? {n : Note} {audio : List α} (hstart : 0 ≤ n.start)
    (hlength : audio.length = n.duration.toNat) (i : Nat) :
    Mix.sampleFor n.start.toNat audio i = (⟨n, audio⟩ : Part α).at? i := by
  rw [Mix.sampleFor, Part.at?]
  rw [Note.duration] at hlength
  simp only
  by_cases hfirst : n.start.toNat ≤ i
  · rw [if_pos hfirst]
    by_cases hlast : (i : Int) < n.finish
    · rw [if_pos ⟨by omega, hlast⟩]
      congr 1
      omega
    · rw [if_neg fun h => hlast h.2, List.getElem?_eq_none (by omega)]
  · rw [if_neg hfirst, if_neg fun h => hfirst (by omega)]

variable {s : Session α} {st st' : Stage α} [Scalar.Faithful α]

/-- What is known of an output while its notes are played. -/
structure Mixes (length : Nat) (parts : List (Part α)) (desk : Desk α) : Prop where
  holds : Mix.Holds length (heardBy parts) desk.mix
  numbers : ∀ i < length, ∀ x ∈ heardBy parts i, IsNumber x
  rendered : desk.rendered = parts.length

omit [Scalar α] [Scalar.Faithful α] in
theorem heardBy_concat (parts : List (Part α)) (p : Part α) (i : Nat) :
    heardBy (parts ++ [p]) i = heardBy parts i ++ (p.at? i).toList := by
  rw [heardBy, heardBy, List.filterMap_append]
  cases h : p.at? i <;> simp [h]

theorem Mixes.concat {length : Nat} {parts : List (Part α)} {desk : Desk α} {n : Note}
    {audio : List α} (h : Mixes length parts desk) (hfits : Fits length n) (hpos : 0 < n.duration)
    (hlength : audio.length = n.duration.toNat) (haudio : ∀ x ∈ audio, IsNumber x) :
    Mixes length (parts ++ [⟨n, audio⟩])
      ⟨desk.mix.add n.start.toNat audio, desk.rendered + 1, desk.skipped⟩ := by
  have hat := sampleFor_eq_at? hfits.1 hlength
  have hroom : n.start.toNat + audio.length ≤ length := by
    obtain ⟨hstart, hfinish, hlast⟩ := hfits
    rw [hlength, Note.duration] at *
    omega
  constructor
  case holds =>
    have hadd := h.holds.add h.numbers haudio hroom
    simp only [hat, ← heardBy_concat] at hadd
    exact hadd
  case numbers =>
    intro i hi x hx
    rw [heardBy_concat, List.mem_append, ← hat] at hx
    rcases hx with hx | hx
    · exact h.numbers i hi x hx
    · rw [Option.mem_toList, Mix.sampleFor] at hx
      split at hx
      · exact haudio x (List.mem_of_getElem? hx)
      · cases hx
  case rendered => rw [List.length_append, h.rendered, List.length_singleton]

/-- Whether an instrument plays a note. -/
def isSkipped (s : Session α) (n : Note) : Bool :=
  (s.arrangement.findInstrument n.program).isNone

theorem addNotes_mixes {length : Nat} {parts : List (Part α)} {desk desk' : Desk α}
    {notes : List Note} (h : s.addNotes desk st notes = (.ok desk', st'))
    (hfits : ∀ n ∈ notes, Fits length n) (hmixes : Mixes length parts desk) :
    ∃ more, s.Plays st notes more st' ∧ Mixes length (parts ++ more) desk' ∧
      desk'.skipped = desk.skipped + notes.countP s.isSkipped := by
  induction notes generalizing desk parts st with
  | nil =>
    cases h
    exact ⟨[], .nil _, by rwa [List.append_nil], rfl⟩
  | cons n rest ih =>
    have hrest := fun m hm => hfits m (List.mem_cons_of_mem n hm)
    rw [addNotes, addNote] at h
    cases hfind : s.arrangement.findInstrument n.program with
    | none =>
      have hskipped : s.isSkipped n = true := by rw [isSkipped, hfind]; rfl
      simp only [hfind] at h
      cases hstrict : s.strict with
      | true =>
        rw [hstrict] at h
        cases h
      | false =>
        rw [hstrict] at h
        obtain ⟨more, hplays, hmixes', hcount⟩ :=
          ih h hrest ⟨hmixes.holds, hmixes.numbers, hmixes.rendered⟩
        refine ⟨more, .skipped hfind hstrict hplays, hmixes', ?_⟩
        rw [hcount, List.countP_cons_of_pos hskipped]
        simp only
        omega
    | some i =>
      have hskipped : ¬s.isSkipped n = true := by rw [isSkipped, hfind]; exact Bool.false_ne_true
      simp only [hfind] at h
      rw [List.countP_cons_of_neg hskipped]
      by_cases hlength : n.duration ≤ 0
      · rw [if_pos hlength] at h
        obtain ⟨more, hplays, hmixes', hcount⟩ := ih h hrest hmixes
        exact ⟨more, .empty hfind hlength hplays, hmixes', hcount⟩
      · rw [if_neg hlength] at h
        have hpos : 0 < n.duration := by omega
        have hn := hfits n List.mem_cons_self
        cases hrender : s.renderNote i n st with
        | mk result st₁ =>
          rw [hrender] at h
          cases result with
          | error fault => cases h
          | ok audio =>
            obtain ⟨haudio, hnumbers⟩ := renderNote_numbers hrender
            simp only [hmixes.holds.size, placeOf?_of_fits hn hpos] at h
            obtain ⟨more, hplays, hmixes', hcount⟩ :=
              ih h hrest (hmixes.concat hn hpos haudio hnumbers)
            rw [List.append_assoc] at hmixes'
            exact ⟨⟨n, audio⟩ :: more, .sounding hfind hpos hrender hplays, hmixes', hcount⟩

/-! ## The end of the last note -/

theorem foldl_max_finish (notes : List Note) (first : Int) :
    first ≤ notes.foldl (fun latest n => max latest n.finish) first ∧
      (∀ n ∈ notes, n.finish ≤ notes.foldl (fun latest n => max latest n.finish) first) ∧
      (notes.foldl (fun latest n => max latest n.finish) first = first ∨
        ∃ n ∈ notes, n.finish = notes.foldl (fun latest n => max latest n.finish) first) := by
  induction notes generalizing first with
  | nil => exact ⟨Int.le_refl first, fun _ hn => absurd hn List.not_mem_nil, .inl rfl⟩
  | cons n rest ih =>
    obtain ⟨hfirst, hrest, hlatest⟩ := ih (max first n.finish)
    rw [List.foldl_cons]
    refine ⟨by omega, List.forall_mem_cons.mpr ⟨by omega, hrest⟩, ?_⟩
    rcases hlatest with hlatest | ⟨m, hm, hfinish⟩
    · rcases Int.le_total first n.finish with hle | hle
      · exact .inr ⟨n, List.mem_cons_self, by omega⟩
      · exact .inl (by omega)
    · exact .inr ⟨m, List.mem_cons_of_mem n hm, hfinish⟩

theorem finish_le_lastEnd {notes : List Note} {n : Note} (hn : n ∈ notes) :
    n.finish ≤ lastEnd notes := by
  cases notes with
  | nil => cases hn
  | cons m rest =>
    obtain ⟨hfirst, hrest, _⟩ := foldl_max_finish rest m.finish
    rcases List.mem_cons.mp hn with rfl | hn
    · exact hfirst
    · exact hrest n hn

theorem lastEnd_eq (notes : List Note) :
    lastEnd notes = 0 ∨ ∃ n ∈ notes, n.finish = lastEnd notes := by
  cases notes with
  | nil => exact .inl rfl
  | cons m rest =>
    obtain ⟨_, _, hlatest | ⟨n, hn, hfinish⟩⟩ := foldl_max_finish rest m.finish
    · exact .inr ⟨m, List.mem_cons_self, hlatest.symm⟩
    · exact .inr ⟨n, List.mem_cons_of_mem m hn, hfinish⟩

/-! ## Outputs -/

/-- What an output is, when certain parts of the notes on its channels have sounded. -/
structure IsMix (routed : List Note) (parts : List (Part α)) (take : Take α) : Prop where
  /-- no note ends after the output -/
  ends : ∀ n ∈ routed, n.finish ≤ take.samples.size
  /-- some note ends with the output, unless it is empty -/
  last : take.samples.size = 0 ∨ ∃ n ∈ routed, n.finish = take.samples.size
  /-- a part has a sample wherever its note sounds -/
  sounds : ∀ p ∈ parts, ∀ i : Nat, p.note.start ≤ i → i < p.note.finish → ∃ x, p.at? i = some x
  /-- sums stay in the range of single precision -/
  within : ∀ i < take.samples.size, ∀ front, front <+: heardBy parts i →
    Scalar.withinSingle (Mix.total front) = true
  /-- where no note sounds there is silence -/
  silence : ∀ i : Nat, (∀ p ∈ parts, ¬(p.note.start ≤ i ∧ i < p.note.finish)) →
    Mix.total (heardBy parts i) = 0.0
  /-- no sum has been greater than the peak -/
  peak_le : ∀ i < take.samples.size, ∀ front, front <+: heardBy parts i → front ≠ [] →
    Scalar.le (Scalar.abs (Mix.total front)) take.peak = true
  /-- some sum has been as great as the peak, unless it is zero -/
  peak_eq : take.peak = 0.0 ∨ ∃ i < take.samples.size, ∃ front, front <+: heardBy parts i ∧
    front ≠ [] ∧ take.peak = Scalar.abs (Mix.total front)
  slot_le : ∀ i < take.samples.size,
    Scalar.le (Scalar.abs (Mix.total (heardBy parts i))) take.peak = true
  /-- each slot is scaled by the peak -/
  samples : Scalar.lt 0.0 take.peak = true → ∀ i < take.samples.size,
    ∃ n, take.samples[i]? = some n ∧ Pcm.IsSample (Mix.total (heardBy parts i)) take.peak n
  /-- without a peak there is silence -/
  mute : Scalar.lt 0.0 take.peak = false → ∀ i < take.samples.size, take.samples[i]? = some 0

/-- Where a note sounds it has a sample. -/
theorem Plays.sounds {notes : List Note} {parts : List (Part α)} (h : s.Plays st notes parts st') :
    ∀ p ∈ parts, ∀ i : Nat, p.note.start ≤ i → i < p.note.finish → ∃ x, p.at? i = some x := by
  induction h with
  | nil st => exact fun p hp => absurd hp List.not_mem_nil
  | skipped _ _ _ ih => exact ih
  | empty _ _ _ ih => exact ih
  | @sounding _ _ _ n _ _ _ audio _ _ hrendered _ ih =>
    refine List.forall_mem_cons.mpr ⟨fun i hfirst hlast => ?_, ih⟩
    obtain ⟨hlength, _⟩ := renderNote_numbers hrendered
    rw [Note.duration] at hlength
    simp only at hfirst hlast
    have hindex : (i - n.start).toNat < audio.length := by omega
    rw [Part.at?, if_pos ⟨hfirst, hlast⟩]
    exact ⟨_, List.getElem?_eq_getElem hindex⟩

omit [Scalar α] [Scalar.Faithful α] in
theorem heardBy_eq_nil {parts : List (Part α)} {i : Nat}
    (h : ∀ p ∈ parts, ¬(p.note.start ≤ i ∧ i < p.note.finish)) : heardBy parts i = [] := by
  rw [heardBy, List.filterMap_eq_nil_iff]
  intro p hp
  rw [Part.at?, if_neg (h p hp)]

/-- The output of a mix that has been finished. -/
theorem Mixes.isMix {length : Nat} {parts : List (Part α)} {desk : Desk α} {routed : List Note}
    (h : Mixes length parts desk) (hends : ∀ n ∈ routed, n.finish ≤ length)
    (hlast : length = 0 ∨ ∃ n ∈ routed, n.finish = length)
    (hsounds : ∀ p ∈ parts, ∀ i : Nat, p.note.start ≤ i → i < p.note.finish → ∃ x, p.at? i = some x)
    (bus : OutputBus) :
    IsMix routed parts ⟨bus, Pcm.ofSlots desk.mix.slots desk.mix.peak, desk.mix.peak, desk.rendered,
      desk.skipped⟩ := by
  obtain ⟨p, hp, _⟩ := h.holds.exists_value_peak h.numbers
  have hsize : (Pcm.ofSlots desk.mix.slots desk.mix.peak).size = length := by
    rw [Pcm.ofSlots, ← h.holds.size]
    split
    · exact Array.size_map
    · exact Array.size_replicate
  have hwithin : ∀ i < length, ∀ front, front <+: heardBy parts i →
      Scalar.withinSingle (Mix.total front) = true := fun i hi front hfront =>
    Mix.withinSingle_total fun x hx => h.numbers i hi x (hfront.subset hx)
  constructor
  case ends =>
    simp only [hsize]
    exact hends
  case last =>
    simp only [hsize]
    exact hlast
  case sounds => exact hsounds
  case within =>
    simp only [hsize]
    exact hwithin
  case silence =>
    intro i hi
    rw [heardBy_eq_nil hi]
    rfl
  case peak_le =>
    simp only [hsize]
    exact h.holds.peak_le
  case peak_eq =>
    simp only [hsize]
    exact h.holds.peak_eq
  case slot_le =>
    simp only [hsize]
    exact fun i hi => h.holds.slot_le_peak h.numbers hi
  case samples =>
    simp only [hsize]
    intro hpeak i hi
    obtain ⟨a, ha, _⟩ := Scalar.Faithful.withinSingle_iff.mp (hwithin i hi _ List.prefix_rfl)
    have hpos : 0 < p := by
      rw [Scalar.Faithful.lt_of_values Scalar.Faithful.value_zero hp] at hpeak
      exact_mod_cast hpeak
    have hle : |a| ≤ p := by
      have hslot := h.holds.slot_le_peak h.numbers hi
      rw [Scalar.Faithful.le_of_values (Scalar.Faithful.value_abs_coe ha) hp] at hslot
      exact_mod_cast hslot
    refine ⟨_, ?_, Pcm.isSample_sampleOf ha hp hpos hle⟩
    rw [Pcm.ofSlots, if_pos hpeak, Array.getElem?_map, h.holds.slots i hi]
    rfl
  case mute =>
    simp only [hsize]
    intro hpeak i hi
    rw [Pcm.ofSlots, hpeak, if_neg Bool.false_ne_true, Array.getElem?_replicate, h.holds.size,
      if_pos hi]

/-- **What is heard on an output.**  When an output has been made of notes that neither
begin nor end before the first sample, it ends with the last note on its channels.
Each slot is the sum of the samples that the notes around it have there, in the order
of the notes and in single precision.  The peak is the greatest magnitude among all
that the slots have run through, and the samples are the slots scaled by it, so that
what is as great as the peak becomes the greatest sample. -/
theorem renderBus_isMix {notes : List Note} {bus : OutputBus} {take : Take α}
    (hroom : ∀ n ∈ notes, bus.routes n.channel = true → 0 ≤ n.start ∧ 0 ≤ n.finish)
    (h : (s.renderBus notes bus st).1 = .ok take) :
    ∃ parts, s.Plays st (notes.filter fun n => bus.routes n.channel) parts
        (s.renderBus notes bus st).2 ∧
      IsMix (notes.filter fun n => bus.routes n.channel) parts take ∧
      take.rendered = parts.length ∧
      take.skipped = (notes.filter fun n => bus.routes n.channel).countP s.isSkipped := by
  have hfilter : ∀ n ∈ notes.filter fun n => bus.routes n.channel, 0 ≤ n.start ∧ 0 ≤ n.finish := by
    intro n hn
    obtain ⟨hmem, hroutes⟩ := List.mem_filter.mp hn
    exact hroom n hmem hroutes
  rw [renderBus] at h ⊢
  generalize notes.filter (fun n => bus.routes n.channel) = routed at h hfilter ⊢
  have hlast : 0 ≤ lastEnd routed := by
    rcases lastEnd_eq routed with hzero | ⟨n, hn, hfinish⟩
    · omega
    · have := (hfilter n hn).2
      omega
  simp only [if_neg (Int.not_lt.mpr hlast)] at h ⊢
  have hfits : ∀ n ∈ routed, Fits (lastEnd routed).toNat n := by
    intro n hn
    have hle := finish_le_lastEnd hn
    exact ⟨(hfilter n hn).1, (hfilter n hn).2, by omega⟩
  cases hadd : s.addNotes ⟨.silence (lastEnd routed).toNat, 0, 0⟩ st routed with
  | mk result st' =>
    rw [hadd] at h
    cases result with
    | error fault => cases h
    | ok desk =>
      have hsilence : Mixes (lastEnd routed).toNat ([] : List (Part α))
          ⟨.silence (lastEnd routed).toNat, 0, 0⟩ :=
        ⟨Mix.Holds.silence _, fun _ _ _ hx => absurd hx List.not_mem_nil, rfl⟩
      obtain ⟨parts, hplays, hmixes, hskipped⟩ := addNotes_mixes hadd hfits hsilence
      cases h
      rw [List.nil_append] at hmixes
      refine ⟨parts, hplays, ?_, hmixes.rendered, by rw [hskipped, Nat.zero_add]⟩
      refine hmixes.isMix (fun n hn => (hfits n hn).2.2) ?_ hplays.sounds bus
      rcases lastEnd_eq routed with hzero | ⟨n, hn, hfinish⟩
      · exact .inl (by omega)
      · exact .inr ⟨n, hn, by omega⟩

/-! ## A steady tone -/

/-- An instrument that has the same value in all samples of a note. -/
def steadyTone (α : Type) : Instrument α :=
  ⟨.ofText "i", 0, false, .waveform ⟨.text "w", "0.5", .number ⟨5, -1⟩⟩, []⟩

/-- A session with this instrument only. -/
def steady (α : Type) : Session α :=
  ⟨⟨44100, false, none, "", [], [], [], [steadyTone α], [⟨"o", "o", [0]⟩]⟩, fun _ => none, 44100,
    false⟩

/-- Two notes that overlap, and one for another instrument. -/
def overlapping : List Note := [⟨0, 0, 0, 2, 69, 64⟩, ⟨0, 1, 0, 4, 69, 64⟩, ⟨0, 0, 1, 3, 69, 64⟩]

attribute [local instance] Scalar.real Scalar.Faithful.real

theorem exists_ofSample_steady (n : Note) (frequency : ℝ) (index : Nat) :
    ∃ ctx : Context ℝ, Context.ofSample index n.duration n.pitch frequency (steady ℝ).sampleRate =
      .ok ctx := by
  have hrate : Scalar.eq (44100 : ℝ) 0.0 = false := by norm_num [Scalar.eq]
  simp [steady, Context.ofSample, Scalar.ofInt, Scalar.quotient, hrate, bind, Except.bind, pure,
    Except.pure]

theorem sampleAt_steady (n : Note) (frequency : ℝ) (st : Stage ℝ) (index : Nat) :
    (steady ℝ).sampleAt (steadyTone ℝ) n frequency st index = (.ok 2⁻¹, st) := by
  have hnumeral : (⟨5, -1⟩ : Decimal).toScalar = (2⁻¹ : ℝ) := by norm_num [Decimal.toScalar]
  have hwithin : Scalar.withinSingle (2⁻¹ : ℝ) = true := by
    norm_num [Scalar.withinSingle, Scalar.singleMax, Scalar.le]
  obtain ⟨ctx, hcontext⟩ := exists_ofSample_steady n frequency index
  have hsample : (steadyTone ℝ).sample ctx st = (.ok (some 2⁻¹), st) := by
    simp only [Instrument.sample, steadyTone, Source.carrier, Waveform.carrier, Formula.Expr.eval,
      hnumeral, Instrument.shape, Instrument.modulate, hwithin, if_true]
  rw [sampleAt, hcontext]
  simp only [computed, hsample, Scalar.single]

theorem renderNote_steady (n : Note) (st : Stage ℝ) :
    (steady ℝ).renderNote (steadyTone ℝ) n st =
      (.ok (List.replicate n.duration.toNat 2⁻¹), st) := by
  have hpitch : computed (Context.ofPitch n.pitch) = .ok [(Context.pitchName, (n.pitch : ℝ))] := rfl
  have hprime (load : ClipLoader ℝ) (ctx : Context ℝ) :
      (steadyTone ℝ).prime load ctx st = (.ok (), st) := rfl
  have hfrequency : computed n.frequency =
      .ok ((440.0 : ℝ) * 2 ^ (((n.pitch - 69 : ℤ) : ℝ) / 12.0)) := rfl
  rw [renderNote, hpitch]
  simp only [hprime, hfrequency]
  rw [samplesFrom_constant (fun index _ => sampleAt_steady n _ st index), List.reverse_nil,
    List.nil_append, List.length_range]

theorem addNote_steady {desk : Desk ℝ} {n : Note} (st : Stage ℝ) (hprogram : n.program = 0)
    (hpos : 0 < n.duration)
    (hplace : Mix.placeOf? desk.mix.slots.size n = some n.start.toNat) :
    (steady ℝ).addNote desk n st =
      (.ok ⟨desk.mix.add n.start.toNat (List.replicate n.duration.toNat 2⁻¹),
        desk.rendered + 1, desk.skipped⟩, st) := by
  have hfind : (steady ℝ).arrangement.findInstrument 0 = some (steadyTone ℝ) := rfl
  rw [addNote, hprogram, hfind]
  simp only [if_neg (Int.not_le.mpr hpos), renderNote_steady, hplace]

theorem add_overlapping :
    ((Mix.silence 4).add 0 [2⁻¹, 2⁻¹]).add 1 [2⁻¹, 2⁻¹] =
      (⟨#[2⁻¹, 1, 2⁻¹, 0], 1⟩ : Mix ℝ) := by
  norm_num [Mix.silence, Mix.add, Mix.addSample, Mix.addSingle, Scalar.single, Scalar.clamp,
    Scalar.min, Scalar.max, Scalar.lt, Scalar.abs, Scalar.singleMax]
  rfl

theorem ofSlots_overlapping :
    Pcm.ofSlots #[2⁻¹, 1, 2⁻¹, 0] (1 : ℝ) = #[16383, 32767, 16383, 0] := by
  norm_num [Pcm.ofSlots, Pcm.sampleOf, Pcm.scaled, Pcm.fullScale, Scalar.clamp, Scalar.min,
    Scalar.max, Scalar.lt, Scalar.isNaN, Scalar.eq, Scalar.truncate, Scalar.Elementary.truncate]

theorem addNotes_overlapping (st : Stage ℝ) :
    (steady ℝ).addNotes ⟨.silence 4, 0, 0⟩ st overlapping =
      (.ok ⟨⟨#[2⁻¹, 1, 2⁻¹, 0], 1⟩, 2, 1⟩, st.tell [.warning (.skippedNote 69 0 1)]) := by
  have hother (desk : Desk ℝ) : (steady ℝ).addNote desk ⟨0, 1, 0, 4, 69, 64⟩ st =
      (.ok { desk with skipped := desk.skipped + 1 },
        st.tell [.warning (.skippedNote 69 0 1)]) := rfl
  rw [overlapping, addNotes, addNote_steady st rfl (by decide) rfl]
  simp only [addNotes, hother]
  rw [addNote_steady _ rfl (by decide) rfl, ← add_overlapping]
  rfl

theorem renderBus_steady : ((steady ℝ).renderBus overlapping ⟨"o", "o", [0]⟩ (.ofRack [])).1 =
    .ok ⟨⟨"o", "o", [0]⟩, #[16383, 32767, 16383, 0], 1, 2, 1⟩ := by
  have hrouted : overlapping.filter (fun n => OutputBus.routes ⟨"o", "o", [0]⟩ n.channel) =
      overlapping := by decide
  have hlast : lastEnd overlapping = 4 := by decide
  have hadd := addNotes_overlapping (.ofRack [])
  have hlength : Int.toNat 4 = 4 := rfl
  rw [renderBus, hrouted, hlast]
  simp only [hlength, hadd, ofSlots_overlapping]
  rfl

/-- Where the two notes overlap their sum is the peak. -/
theorem isMix_steady :
    ∃ parts, (steady ℝ).Plays (.ofRack []) overlapping parts
        ((steady ℝ).renderBus overlapping ⟨"o", "o", [0]⟩ (.ofRack [])).2 ∧
      IsMix overlapping parts ⟨⟨"o", "o", [0]⟩, #[16383, 32767, 16383, 0], 1, 2, 1⟩ ∧
      parts.length = 2 := by
  have hroom : ∀ n ∈ overlapping, OutputBus.routes ⟨"o", "o", [0]⟩ n.channel = true →
      0 ≤ n.start ∧ 0 ≤ n.finish := by decide
  obtain ⟨parts, hplays, hmix, hrendered, _⟩ := renderBus_isMix hroom renderBus_steady
  exact ⟨parts, hplays, hmix, hrendered.symm⟩

end Session

end Orchestrion

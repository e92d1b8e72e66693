import Orchestrion.Proofs.Binary64.Nearest
import Orchestrion.Proofs.Mix.Performance
import Orchestrion.Proofs.Score.Clock

set_option autoImplicit false

/-!
# The place of a note in a mix

An output is as long as the last end of its notes.  Notes that come from a score begin
in it and end no earlier than they begin, so each of them has its slots in the output:
as many as the note is long, none of them before the first one or after the last.  Such
an output fails of a note that fails on its instrument, or of one that no instrument
plays, and never of its length or of the place of a note.
-/

namespace Orchestrion

variable {β : Type} [Scalar β]

namespace Session

/-! ## Slots -/

/-- A position in a mix that is neither before the first slot nor after the last. -/
theorem slotOf_of_nonneg {length : Nat} {position : Int} (hlow : 0 ≤ position)
    (hhigh : position ≤ length) : (Mix.slotOf length position : Int) = position := by
  have hmin : Nat.min position.toNat length = position.toNat := Nat.min_eq_left (by omega)
  rw [Mix.slotOf, if_neg (by omega), hmin]
  omega

/-- The slots of a note in a mix. -/
structure Placed (length : Nat) (n : Note) : Prop where
  /-- the positions are the slots, and nothing is cut off or counted from the end -/
  first : (Mix.slotOf length n.start : Int) = n.start
  last : (Mix.slotOf length n.finish : Int) = n.finish
  within : n.finish ≤ length
  /-- there are as many slots as the note is long -/
  slots : (Mix.slotOf length n.finish : Int) - Mix.slotOf length n.start = n.duration
  place : Mix.placeOf? length n = some n.start.toNat

theorem placed_of_fits {length : Nat} {n : Note} (h : Fits length n)
    (hordered : n.start ≤ n.finish) : Placed length n := by
  obtain ⟨hstart, hfinish, hlength⟩ := h
  have hfirst := slotOf_of_nonneg hstart (hordered.trans hlength)
  have hlast := slotOf_of_nonneg hfinish hlength
  have hplace : Mix.slotOf length n.start + n.duration.toNat = Mix.slotOf length n.finish := by
    rw [Note.duration]
    omega
  refine ⟨hfirst, hlast, hlength, by rw [hfirst, hlast, Note.duration], ?_⟩
  simp only [Mix.placeOf?, if_pos hplace, Option.some.injEq]
  omega

/-! ## Faults of an output -/

variable {s : Session β} {st : Stage β} {notes : List Note} {fault : Fault}

/-- Whether a fault is that of a note which no instrument plays, under a strict policy. -/
def IsLacking (s : Session β) (n : Note) (fault : Fault) : Prop :=
  s.strict = true ∧ s.isSkipped n = true ∧ fault = .missingInstrument n.program

/-- Whether a fault is that of a note on its instrument, on some banks with the frames of a
rack. -/
def IsFailing (s : Session β) (rack : List (Bank β)) (n : Note) (fault : Fault) : Prop :=
  ∃ i st, s.arrangement.findInstrument n.program = some i ∧ 0 < n.duration ∧
    st.rack.map Bank.frame = rack.map Bank.frame ∧ (s.renderNote i n st).1 = .error fault

theorem IsFailing.isOfSource {rack : List (Bank β)} {n : Note}
    (h : s.IsFailing rack n fault) : fault.isOfSource = true := by
  obtain ⟨i, st, -, -, -, hrender⟩ := h
  exact (s.confined_renderNote i n).sourced st fault hrender

theorem IsFailing.of_frames {rack rack' : List (Bank β)} {n : Note}
    (h : s.IsFailing rack n fault) (hframes : rack.map Bank.frame = rack'.map Bank.frame) :
    s.IsFailing rack' n fault := by
  obtain ⟨i, st, hfind, hlong, hst, hrender⟩ := h
  exact ⟨i, st, hfind, hlong, hst.trans hframes, hrender⟩

/-- A note either plays, and the banks keep their frames, or it fails. -/
theorem sound_cases (s : Session β) (n : Note) (st : Stage β) :
    (∃ parts st', s.sound n st = (.ok parts, st') ∧
      st'.rack.map Bank.frame = st.rack.map Bank.frame) ∨
    ∃ fault st', s.sound n st = (.error fault, st') ∧
      (s.IsFailing st.rack n fault ∨ s.IsLacking n fault) := by
  cases hfind : s.arrangement.findInstrument n.program with
  | none =>
    have hskipped : s.isSkipped n = true := by rw [isSkipped, hfind]; rfl
    simp only [sound, hfind]
    cases hstrict : s.strict with
    | true => exact .inr ⟨_, st, rfl, .inr ⟨hstrict, hskipped, rfl⟩⟩
    | false => exact .inl ⟨[], _, rfl, rfl⟩
  | some i =>
    simp only [sound, hfind, soundOn]
    by_cases hshort : n.duration ≤ 0
    · rw [if_pos hshort]
      exact .inl ⟨[], st, rfl, rfl⟩
    · rw [if_neg hshort]
      have hframes := (s.confined_renderNote i n).frames st
      rcases hrender : s.renderNote i n st with ⟨fault | audio, st'⟩
      · have hfault : (s.renderNote i n st).1 = .error fault := congrArg Prod.fst hrender
        exact .inr ⟨fault, st', rfl, .inl ⟨i, st, hfind, by omega, rfl, hfault⟩⟩
      · rw [hrender] at hframes
        exact .inl ⟨[⟨n, audio⟩], st', rfl, hframes⟩

/-- Playing notes fails of a note that fails, or for want of an instrument. -/
theorem fault_of_perform (h : (s.perform st notes).1 = .error fault) :
    ∃ n ∈ notes, s.IsFailing st.rack n fault ∨ s.IsLacking n fault := by
  induction notes generalizing st with
  | nil => cases h
  | cons n rest ih =>
    rcases s.sound_cases n st with ⟨parts, st₁, hsound, hframes⟩ | ⟨fault', st₁, hsound, hfails⟩
    · rw [perform_cons_of_ok hsound] at h
      have hrest : (s.perform st₁ rest).1 = .error fault := by
        cases hx : (s.perform st₁ rest).1 with
        | error fault' =>
          rw [hx] at h
          exact congrArg Except.error (Except.error.inj h)
        | ok more =>
          rw [hx] at h
          cases h
      obtain ⟨m, hm, hfails⟩ := ih hrest
      exact ⟨m, List.mem_cons_of_mem n hm, hfails.imp (fun hfailing => hfailing.of_frames hframes) id⟩
    · rw [perform_cons_of_error hsound] at h
      obtain rfl : fault' = fault := Except.error.inj h
      exact ⟨n, List.mem_cons_self, hfails⟩

variable {bus : OutputBus} [Scalar.Faithful β]

/-- An output of notes that lie in time fails of a note that fails, or for want of an
instrument. -/
theorem fault_of_renderBus (h : InTime (bus.heard notes))
    (hfault : (s.renderBus notes bus st).1 = .error fault) :
    ∃ n ∈ bus.heard notes, s.IsFailing st.rack n fault ∨ s.IsLacking n fault := by
  have hplay : (s.perform st (bus.heard notes)).1 = .error fault := by
    rw [renderBus_eq h] at hfault
    cases hx : (s.perform st (bus.heard notes)).1 with
    | error fault' =>
      rw [hx] at hfault
      exact congrArg Except.error (Except.error.inj hfault)
    | ok parts =>
      rw [hx] at hfault
      cases hfault
  exact fault_of_perform hplay

/-- Such an output fails neither of its length nor of the place of a note. -/
theorem fault_ne_of_renderBus (h : InTime (bus.heard notes))
    (hfault : (s.renderBus notes bus st).1 = .error fault) :
    fault ≠ .misplaced ∧ fault ≠ .negativeLength := by
  obtain ⟨n, _, hfailing | ⟨_, _, rfl⟩⟩ := fault_of_renderBus h hfault
  · have hsource := hfailing.isOfSource
    constructor <;> rintro rfl <;> cases hsource
  · exact ⟨nofun, nofun⟩

/-- What an output comes to is as long as its last note lasts. -/
theorem size_samples_of_renderBus (h : InTime (bus.heard notes)) {take : Take β}
    (htake : (s.renderBus notes bus st).1 = .ok take) :
    take.samples.size = (lastEnd (bus.heard notes)).toNat := by
  rw [renderBus_eq h] at htake
  obtain ⟨parts, _, rfl⟩ := exists_of_map_eq_ok htake
  exact size_samples_takeOf s bus _ parts

end Session

/-! ## Notes of a score -/

open Session (lastEnd Placed)

/-- **The notes of a score have their slots in every output.**  Let the delays of the
messages not be negative and their times be computed, in an arithmetic that rounds in
order.  Then every note begins in the score and ends no earlier than it begins, and the
notes come in the order of their ends.  On every output, whatever the arrangement and the
arithmetic of the mix, the slots of each note are in the mix and as many as the note is
long, and as many samples are added to them; so no output fails of its length or of the
place of a note. -/
theorem exists_notes_placed {α : Type} [Scalar α] [Scalar.Faithful α] [Scalar.Rounded α]
    {messages : List (TimedMessage α)} {rate : Int} {nows : List Int} (hrate : 0 ≤ rate)
    (hforward : Score.Forward messages) (hclock : Score.clock rate 0.0 messages = .ok nows) :
    ∃ found warnings, Score.notes messages rate = .ok (found, warnings) ∧
      (∀ n ∈ found, 0 ≤ n.start ∧ n.start ≤ n.finish) ∧
      found.Pairwise (fun n m => n.finish ≤ m.finish) ∧
      ∀ bus : OutputBus,
        0 ≤ lastEnd (bus.heard found) ∧
        (∀ n ∈ bus.heard found, Placed (lastEnd (bus.heard found)).toNat n) ∧
        ∀ (β : Type) [Scalar β] [Scalar.Faithful β] (s : Session β) (st : Stage β),
          (∀ n ∈ bus.heard found, ∀ i st₁ audio st₂, s.renderNote i n st₁ = (.ok audio, st₂) →
            (audio.length : Int) = n.duration) ∧
          (∀ take, (s.renderBus found bus st).1 = .ok take →
            (take.samples.size : Int) = lastEnd (bus.heard found)) ∧
          (s.renderBus found bus st).1 ≠ .error .misplaced ∧
          (s.renderBus found bus st).1 ≠ .error .negativeLength := by
  obtain ⟨found, warnings, hnotes, horder⟩ :=
    Score.exists_notes_inOrder hrate hforward hclock
  refine ⟨found, warnings, hnotes, fun n hn => ⟨horder.start_nonneg n hn,
    horder.start_le_finish n hn⟩, horder.finish_ordered, fun bus => ?_⟩
  have hheard : ∀ n ∈ bus.heard found, 0 ≤ n.start ∧ n.start ≤ n.finish := by
    intro n hn
    have hmem := List.mem_of_mem_filter hn
    exact ⟨horder.start_nonneg n hmem, horder.start_le_finish n hmem⟩
  have hinTime : Session.InTime (bus.heard found) := by
    intro n hn
    obtain ⟨hstart, hordered⟩ := hheard n hn
    exact ⟨hstart, hstart.trans hordered⟩
  have hlength := Session.lastEnd_nonneg hinTime
  refine ⟨hlength, fun n hn => ?_, fun β _ _ s st => ⟨?_, ?_, ?_, ?_⟩⟩
  · exact Session.placed_of_fits (hinTime.fits n hn) (hheard n hn).2
  · intro n hn i st₁ audio st₂ hrender
    have hordered := (hheard n hn).2
    rw [(Session.renderNote_numbers hrender).1, Note.duration]
    omega
  · intro take htake
    rw [Session.size_samples_of_renderBus hinTime htake]
    omega
  · exact fun hfault => (Session.fault_ne_of_renderBus hinTime hfault).1 rfl
  · exact fun hfault => (Session.fault_ne_of_renderBus hinTime hfault).2 rfl

/-- A note that is struck after a quarter of a second and lasts for half a second. -/
def strike : List (TimedMessage Float) :=
  [⟨0.25, .noteOn 0 60 100⟩, ⟨0.5, .noteOff 0 60 0⟩]

/-- At two samples in a second both of its times lie between two samples, and go to the
even one. -/
theorem placed_strike :
    Score.clock 2 0.0 strike = .ok [0, 2] ∧
      Score.notes strike 2 = .ok ([⟨0, 0, 0, 2, 60, 100⟩], []) ∧
      Placed 2 ⟨0, 0, 0, 2, 60, 100⟩ := by
  have hforward : Score.Forward strike := by
    unfold Score.Forward
    decide +kernel
  have hclock : Score.clock 2 0.0 strike = .ok [0, 2] := by decide +kernel
  have hnotes : Score.notes strike 2 = .ok ([⟨0, 0, 0, 2, 60, 100⟩], []) := by decide +kernel
  obtain ⟨found, warnings, hfound, _, _, hplaced⟩ :=
    exists_notes_placed (by decide) hforward hclock
  rw [hnotes] at hfound
  cases hfound
  exact ⟨hclock, hnotes, (hplaced ⟨"o", "o", [0]⟩).2.1 _ (List.mem_singleton.mpr rfl)⟩

end Orchestrion

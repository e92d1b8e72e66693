import Orchestrion.Proofs.Binary64.Faithful
import Orchestrion.Proofs.Mix.Playable

set_option autoImplicit false

/-!
# Notes that no instrument plays

A strict session stops at the first note that no instrument plays; a lenient one leaves
such notes out and tells of each.  A note that is left out touches no bank, so the other
notes sound as they do without it, and the lenient output is that of a strict session
that never saw the missing notes, with silence up to where the last of them ends.
-/

namespace Orchestrion

variable {α : Type} [Scalar α]

namespace Session

variable {s : Session α} {n : Note} {st st' : Stage α} {notes : List Note}

/-! ## Two policies -/

/-- The session with a policy of its own. -/
def under (s : Session α) (strict : Bool) : Session α := { s with strict := strict }

theorem sound_lenient (h : s.isSkipped n = true) :
    (s.under false).sound n st = (.ok [], st.tell [.warning (skipWarning n)]) := by
  have hfind : (s.under false).arrangement.findInstrument n.program = none :=
    Option.isNone_iff_eq_none.mp h
  rw [sound, hfind]
  rfl

theorem sound_strict (h : s.isSkipped n = true) :
    (s.under true).sound n st = (.error (.missingInstrument n.program), st) := by
  have hfind : (s.under true).arrangement.findInstrument n.program = none :=
    Option.isNone_iff_eq_none.mp h
  rw [sound, hfind]
  rfl

/-- A note that an instrument plays sounds on it, whatever the policy. -/
theorem exists_sound_under (h : ¬s.isSkipped n = true) :
    ∃ i, s.arrangement.findInstrument n.program = some i ∧
      ∀ strict, (s.under strict).sound n = s.soundOn i n := by
  obtain ⟨i, hfind⟩ := Option.ne_none_iff_exists'.mp (mt Option.isNone_iff_eq_none.mpr h)
  refine ⟨i, hfind, fun strict => funext fun st => ?_⟩
  have hfind' : (s.under strict).arrangement.findInstrument n.program = some i := hfind
  rw [sound, hfind']
  exact soundOn_congr rfl rfl

/-! ## Several notes -/

/-- A lenient session never fails for want of an instrument. -/
theorem served_perform (s : Session α) (st : Stage α) (notes : List Note) :
    Served ((s.under false).perform st notes).1 := by
  induction notes generalizing st with
  | nil => exact served_ok []
  | cons n rest ih =>
    have hsound : Served ((s.under false).sound n st).1 := by
      by_cases hskipped : s.isSkipped n = true
      · rw [sound_lenient hskipped]
        exact served_ok []
      · obtain ⟨i, _, hplayed⟩ := exists_sound_under hskipped
        rw [hplayed]
        exact (s.confined_soundOn i n).served st
    rcases hx : (s.under false).sound n st with ⟨fault | parts, st₁⟩
    · rw [perform_cons_of_error hx]
      rwa [hx] at hsound
    · rw [perform_cons_of_ok hx]
      have hrest := ih st₁
      cases hy : ((s.under false).perform st₁ rest).1 with
      | error fault => exact hrest.error hy
      | ok more => exact served_ok _

theorem served_addNote (s : Session α) (h : s.strict = false) (desk : Desk α) (n : Note) (st : Stage α) :
    Served (s.addNote desk n st).1 := by
  unfold addNote
  split
  · rw [h]
    exact served_ok _
  · rename_i i _
    have hrender := (s.confined_renderNote i n).served st
    split
    · exact served_ok desk
    · rcases hx : s.renderNote i n st with ⟨fault | audio, st₁⟩
      · rw [hx] at hrender
        exact hrender.error rfl
      · simp only
        split
        · exact fun _ => nofun
        · exact served_ok _

theorem served_addNotes (s : Session α) (h : s.strict = false) (desk : Desk α) (st : Stage α)
    (notes : List Note) : Served (s.addNotes desk st notes).1 := by
  induction notes generalizing desk st with
  | nil => exact served_ok desk
  | cons n rest ih =>
    have hnote := s.served_addNote h desk n st
    unfold addNotes
    rcases hx : s.addNote desk n st with ⟨fault | desk₁, st₁⟩
    · rw [hx] at hnote
      exact hnote.error rfl
    · exact ih desk₁ st₁

/-- No output of a lenient session fails for want of an instrument, wherever the notes lie in
time. -/
theorem served_renderBus (s : Session α) (h : s.strict = false) (notes : List Note) (bus : OutputBus)
    (st : Stage α) : Served (s.renderBus notes bus st).1 := by
  unfold renderBus
  simp only
  generalize notes.filter _ = routed
  split
  · exact fun _ => nofun
  · have hnotes := s.served_addNotes h ⟨.silence (lastEnd routed).toNat, 0, 0⟩ st routed
    rcases hx : s.addNotes ⟨.silence (lastEnd routed).toNat, 0, 0⟩ st routed with
      ⟨fault | desk, st₁⟩
    · rw [hx] at hnotes
      exact hnotes.error rfl
    · exact served_ok _

/-- What a lenient session plays is what a strict one plays without the missing notes. -/
theorem perform_kept (notes : List Note) (hrack : st.rack = st'.rack) :
    ((s.under false).perform st notes).1 =
      ((s.under true).perform st' (notes.filter fun n => !s.isSkipped n)).1 := by
  induction notes generalizing st st' with
  | nil => rfl
  | cons n rest ih =>
    by_cases hskipped : s.isSkipped n = true
    · have htold : (st.tell [.warning (skipWarning n)]).rack = st'.rack := hrack
      rw [List.filter_cons_of_neg (by simp [hskipped]), perform_cons_of_ok (sound_lenient hskipped),
        ih htold]
      cases ((s.under true).perform st' (rest.filter fun n => !s.isSkipped n)).1 <;> rfl
    · obtain ⟨i, _, hplayed⟩ := exists_sound_under hskipped
      rw [List.filter_cons_of_pos (by simp [hskipped])]
      rcases (s.confined_soundOn i n).cases hrack with
        ⟨fault, st₁, st₁', hx, hx'⟩ | ⟨parts, st₁, st₁', hx, hx', hrack'⟩
      · rw [← hplayed] at hx hx'
        rw [perform_cons_of_error hx, perform_cons_of_error hx']
      · rw [← hplayed] at hx hx'
        rw [perform_cons_of_ok hx, perform_cons_of_ok hx', ih hrack']

/-- A strict session stops at the first of the missing notes, if it gets there. -/
theorem perform_strict {m : Note} {missing : List Note} {parts : List (Part α)}
    (hplay : ((s.under false).perform st notes).1 = .ok parts)
    (hmissing : notes.filter s.isSkipped = m :: missing) (hrack : st.rack = st'.rack) :
    ((s.under true).perform st' notes).1 = .error (.missingInstrument m.program) := by
  induction notes generalizing st st' parts with
  | nil => cases hmissing
  | cons n rest ih =>
    by_cases hskipped : s.isSkipped n = true
    · rw [List.filter_cons_of_pos hskipped] at hmissing
      cases hmissing
      rw [perform_cons_of_error (sound_strict hskipped)]
    · rw [List.filter_cons_of_neg hskipped] at hmissing
      obtain ⟨i, _, hplayed⟩ := exists_sound_under hskipped
      rcases (s.confined_soundOn i n).cases hrack with
        ⟨fault, st₁, st₁', hx, hx'⟩ | ⟨front, st₁, st₁', hx, hx', hrack'⟩
      · rw [← hplayed] at hx
        rw [perform_cons_of_error hx] at hplay
        cases hplay
      · rw [← hplayed] at hx hx'
        rw [perform_cons_of_ok hx] at hplay
        rw [perform_cons_of_ok hx']
        cases hrest : ((s.under false).perform st₁ rest).1 with
        | error fault =>
          rw [hrest] at hplay
          cases hplay
        | ok more => rw [ih hrest hmissing hrack', Except.map]

/-- Without missing notes the policy does not matter. -/
theorem perform_under (strict : Bool) (h : notes.filter s.isSkipped = []) :
    (s.under strict).perform st notes = (s.under false).perform st notes := by
  induction notes generalizing st with
  | nil => rfl
  | cons n rest ih =>
    obtain ⟨hfirst, hrest⟩ := List.forall_mem_cons.mp (List.filter_eq_nil_iff.mp h)
    obtain ⟨i, _, hplayed⟩ := exists_sound_under hfirst
    rw [perform, perform, hplayed, hplayed]
    rcases s.soundOn i n st with ⟨fault | parts, st₁⟩
    · rfl
    · simp only [ih (List.filter_eq_nil_iff.mpr hrest)]

/-- A lenient session tells of each missing note. -/
theorem skips_perform {parts : List (Part α)}
    (hplay : (s.under false).perform st notes = (.ok parts, st')) :
    Event.skips st'.trace =
      Event.skips st.trace ++ (notes.filter s.isSkipped).map skipWarning := by
  induction notes generalizing st parts with
  | nil =>
    cases hplay
    exact (List.append_nil _).symm
  | cons n rest ih =>
    obtain ⟨front, st₁, more, hsound, hrest, _⟩ := exists_of_perform_cons hplay
    rw [ih hrest]
    by_cases hskipped : s.isSkipped n = true
    · rw [sound_lenient hskipped] at hsound
      cases hsound
      have htold : Event.skips [.warning (skipWarning n)] = [skipWarning n] := rfl
      rw [List.filter_cons_of_pos hskipped, List.map_cons, Stage.tell, Event.skips_append, htold,
        List.append_assoc, List.singleton_append]
    · obtain ⟨i, _, hplayed⟩ := exists_sound_under hskipped
      have hquiet := (s.confined_soundOn i n).skips st
      rw [hplayed] at hsound
      rw [hsound] at hquiet
      rw [List.filter_cons_of_neg hskipped, hquiet]

/-- A lenient session plays a note that can be played, and the banks keep their frames. -/
theorem exists_sound [Scalar.Counts α]
    (h : ∀ i, s.arrangement.findInstrument n.program = some i → 0 < n.duration →
      s.Playable st.rack i n) :
    ∃ parts st', (s.under false).sound n st = (.ok parts, st') ∧
      st'.rack.map Bank.frame = st.rack.map Bank.frame := by
  by_cases hskipped : s.isSkipped n = true
  · exact ⟨[], _, sound_lenient hskipped, rfl⟩
  · obtain ⟨i, hfind, hplayed⟩ := exists_sound_under hskipped
    have hframes := (s.confined_soundOn i n).frames st
    rw [hplayed]
    rcases hx : s.soundOn i n st with ⟨fault | parts, st₁⟩
    case ok =>
      rw [hx] at hframes
      exact ⟨parts, st₁, rfl, hframes⟩
    case error =>
      rw [soundOn] at hx
      by_cases hshort : n.duration ≤ 0
      · simp [if_pos hshort] at hx
      · obtain ⟨audio, haudio⟩ := (h i hfind (by omega)).exists_renderNote
        have hrender : s.renderNote i n st = (.ok audio, (s.renderNote i n st).2) :=
          Prod.ext haudio rfl
        rw [if_neg hshort, hrender] at hx
        cases hx

/-- A lenient session plays notes that can be played. -/
theorem exists_perform [Scalar.Counts α]
    (h : ∀ n ∈ notes, ∀ i, s.arrangement.findInstrument n.program = some i → 0 < n.duration →
      s.Playable st.rack i n) :
    ∃ parts, ((s.under false).perform st notes).1 = .ok parts := by
  induction notes generalizing st with
  | nil => exact ⟨[], rfl⟩
  | cons n rest ih =>
    obtain ⟨hfirst, hrest⟩ := List.forall_mem_cons.mp h
    obtain ⟨front, st₁, hsound, hframes⟩ := exists_sound hfirst
    have hrest' : ∀ m ∈ rest, ∀ i, s.arrangement.findInstrument m.program = some i →
        0 < m.duration → s.Playable st₁.rack i m :=
      fun m hm i hfind hlong => (hrest m hm i hfind hlong).of_frames hframes
    obtain ⟨more, hmore⟩ := ih hrest'
    rw [perform_cons_of_ok hsound, hmore]
    exact ⟨_, rfl⟩

/-! ## Outputs -/

/-- The notes on an output that no instrument plays. -/
def missing (s : Session α) (bus : OutputBus) (notes : List Note) : List Note :=
  (bus.heard notes).filter s.isSkipped

/-- Some notes without those. -/
def kept (s : Session α) (bus : OutputBus) (notes : List Note) : List Note :=
  notes.filter fun n => !(bus.routes n.channel && s.isSkipped n)

omit [Scalar α] in
theorem heard_kept (s : Session α) (bus : OutputBus) (notes : List Note) :
    bus.heard (s.kept bus notes) = (bus.heard notes).filter fun n => !s.isSkipped n := by
  rw [OutputBus.heard, OutputBus.heard, kept, List.filter_filter, List.filter_filter]
  refine List.filter_congr fun n _ => ?_
  cases bus.routes n.channel <;> cases s.isSkipped n <;> rfl

omit [Scalar α] in
theorem InTime.filter (h : InTime notes) (p : Note → Bool) : InTime (notes.filter p) :=
  fun n hn => h n (List.mem_of_mem_filter hn)

omit [Scalar α] in
/-- Fewer notes end no later. -/
theorem lastEnd_filter_le (h : InTime notes) (p : Note → Bool) :
    lastEnd (notes.filter p) ≤ lastEnd notes := by
  rcases lastEnd_eq (notes.filter p) with hzero | ⟨n, hn, hfinish⟩
  · rw [hzero]
    exact lastEnd_nonneg h
  · rw [← hfinish]
    exact finish_le_lastEnd (List.mem_of_mem_filter hn)

end Session

/-- An output that goes on in silence up to a length, with so many notes left out. -/
def Take.extended (length skipped : Nat) (take : Take α) : Take α :=
  { take with
    samples := take.samples ++ Array.replicate (length - take.samples.size) 0
    skipped := skipped }

namespace Session

variable {s : Session α} {st st' : Stage α} {notes : List Note} {bus : OutputBus}
  [Scalar.Faithful α]

/-- What a lenient session comes to on an output is what a strict one comes to without the
missing notes, a fault included; only that the output is as long as if it had them. -/
theorem renderBus_kept (h : InTime (bus.heard notes)) (hrack : st.rack = st'.rack) :
    ((s.under false).renderBus notes bus st).1 =
      ((s.under true).renderBus (s.kept bus notes) bus st').1.map
        (Take.extended (lastEnd (bus.heard notes)).toNat (s.missing bus notes).length) := by
  have hkept : InTime (bus.heard (s.kept bus notes)) := by
    rw [heard_kept]
    exact h.filter _
  rw [renderBus_eq h, renderBus_eq hkept, perform_kept _ hrack, heard_kept, missing]
  generalize bus.heard notes = routed at h
  rcases hplay : (s.under true).perform st' (routed.filter fun n => !s.isSkipped n) with
    ⟨fault | parts, st₁⟩
  · rfl
  · have hle := lastEnd_filter_le h fun n => !s.isSkipped n
    have hnonneg := lastEnd_nonneg (h.filter fun n => !s.isSkipped n)
    have hlength : (lastEnd routed).toNat = 0 +
        (lastEnd (routed.filter fun n => !s.isSkipped n)).toNat + ((lastEnd routed).toNat -
          (lastEnd (routed.filter fun n => !s.isSkipped n)).toNat) := by
      omega
    obtain ⟨hpeak, hsamples⟩ := mixdown_padded (h.filter _) hplay hlength
    rw [map_later_zero] at hpeak hsamples
    simp only [Except.map, Take.extended, size_samples_takeOf]
    simp only [takeOf]
    rw [hsamples, hpeak, Array.replicate_zero, Array.empty_append, List.countP_eq_length_filter]
    rfl

/-- What a lenient session makes of an output, as strict sessions see it. -/
structure IsLenientTake (s : Session α) (notes : List Note) (bus : OutputBus) (st : Stage α)
    (take : Take α) : Prop where
  /-- the missing notes are counted -/
  skipped : take.skipped = (s.missing bus notes).length
  /-- each of them is told of, in order -/
  told : Event.skips ((s.under false).renderBus notes bus st).2.trace =
    Event.skips st.trace ++ (s.missing bus notes).map skipWarning
  /-- the output ends with the last note, be it missing -/
  length : take.samples.size = (lastEnd (bus.heard notes)).toNat
  /-- without them a strict session comes to the same, up to the silence at the end -/
  kept : ∃ strictTake, ((s.under true).renderBus (s.kept bus notes) bus st).1 = .ok strictTake ∧
    take.peak = strictTake.peak ∧ take.rendered = strictTake.rendered ∧
    take.samples = strictTake.samples ++
      Array.replicate ((lastEnd (bus.heard notes)).toNat - strictTake.samples.size) 0
  /-- if there are none, a strict session comes to the same -/
  complete : s.missing bus notes = [] → ((s.under true).renderBus notes bus st).1 = .ok take
  /-- otherwise it stops at the first of them -/
  stops : ∀ n rest, s.missing bus notes = n :: rest →
    ((s.under true).renderBus notes bus st).1 = .error (.missingInstrument n.program)

theorem isLenientTake {take : Take α} (h : InTime (bus.heard notes))
    (htake : ((s.under false).renderBus notes bus st).1 = .ok take) :
    s.IsLenientTake notes bus st take := by
  obtain ⟨strictTake, hstrict, hextended⟩ : ∃ strictTake,
      ((s.under true).renderBus (s.kept bus notes) bus st).1 = .ok strictTake ∧
        strictTake.extended (lastEnd (bus.heard notes)).toNat (s.missing bus notes).length =
          take := by
    rw [renderBus_kept h rfl] at htake
    exact exists_of_map_eq_ok htake
  obtain ⟨parts, hplay, htakeOf⟩ : ∃ parts,
      ((s.under false).perform st (bus.heard notes)).1 = .ok parts ∧
        (s.under false).takeOf bus (bus.heard notes) parts = take := by
    rw [renderBus_eq h] at htake
    exact exists_of_map_eq_ok htake
  constructor
  case skipped => rw [← hextended, Take.extended]
  case told =>
    rw [renderBus_eq h]
    exact skips_perform (Prod.ext hplay rfl)
  case length => rw [← htakeOf, size_samples_takeOf]
  case kept =>
    subst hextended
    exact ⟨strictTake, hstrict, rfl, rfl, rfl⟩
  case complete =>
    intro hnone
    rw [renderBus_eq h] at htake ⊢
    rw [perform_under true hnone]
    exact htake
  case stops =>
    intro n rest hmissing
    rw [renderBus_eq h, perform_strict hplay hmissing rfl]
    rfl

/-- **Strict and lenient sessions agree.**  Let an output be made of notes that neither
begin nor end before the first sample.  A lenient session never fails for want of an
instrument, and it does not fail at all when nothing stands in the way of the notes that
an instrument plays.  What it comes to is the output that a strict session makes without
the missing notes, and silence as far as these last; they are counted and told of.  With
the missing notes, the strict session stops at the first of them.  Notes on other
channels do not matter to either session. -/
theorem renderBus_policies [Scalar.Counts α] (s : Session α) (st : Stage α)
    (hroom : ∀ n ∈ notes, bus.routes n.channel = true → 0 ≤ n.start ∧ 0 ≤ n.finish) :
    (∀ take, ((s.under false).renderBus notes bus st).1 = .ok take →
      s.IsLenientTake notes bus st take) ∧
    (∀ program, ((s.under false).renderBus notes bus st).1 ≠
      .error (.missingInstrument program)) ∧
    ((∀ n ∈ bus.heard notes, ∀ i, s.arrangement.findInstrument n.program = some i →
        0 < n.duration → s.Playable st.rack i n) →
      ∃ take, ((s.under false).renderBus notes bus st).1 = .ok take) ∧
    ∀ strict, (s.under strict).renderBus (bus.heard notes) bus st =
      (s.under strict).renderBus notes bus st := by
  have h : InTime (bus.heard notes) := inTime_heard hroom
  refine ⟨fun take => isLenientTake h, ?_, fun hplayable => ?_, fun strict => ?_⟩
  · intro program
    rw [renderBus_eq h]
    have hserved := served_perform s st (bus.heard notes)
    cases hplay : ((s.under false).perform st (bus.heard notes)).1 with
    | error fault => exact hserved.error hplay program
    | ok parts => exact fun hfault => nomatch hfault
  · obtain ⟨parts, hplay⟩ := exists_perform hplayable
    rw [renderBus_eq h, hplay]
    exact ⟨_, rfl⟩
  · unfold renderBus
    simp only [OutputBus.heard, List.filter_filter, Bool.and_self]

section

attribute [local instance] Scalar.real Scalar.Faithful.real Scalar.Counts.real

theorem playable_steady (n : Note) : (steady ℝ).Playable [] (steadyTone ℝ) n := by
  refine ⟨⟨_, rfl⟩, ⟨_, rfl, fun index _ => ?_⟩, fun slot hcarrier => nomatch hcarrier⟩
  obtain ⟨ctx, hctx⟩ := exists_ofSample_steady n _ index
  exact ⟨ctx, hctx, fun m hm => absurd hm List.not_mem_nil⟩

/-- Of the notes in `overlapping` a strict session plays the two that an instrument plays,
if it does not see the third one. -/
theorem policies_steady :
    let bus : OutputBus := ⟨"o", "o", [0]⟩
    (∀ n ∈ overlapping, bus.routes n.channel = true → 0 ≤ n.start ∧ 0 ≤ n.finish) ∧
      (steady ℝ).missing bus overlapping = [⟨0, 1, 0, 4, 69, 64⟩] ∧
      (∃ take, ((steady ℝ).renderBus overlapping bus (.ofRack [])).1 = .ok take) ∧
      (((steady ℝ).under true).renderBus overlapping bus (.ofRack [])).1 =
        .error (.missingInstrument 1) ∧
      ∃ take, (((steady ℝ).under true).renderBus [⟨0, 0, 0, 2, 69, 64⟩, ⟨0, 0, 1, 3, 69, 64⟩] bus
          (.ofRack [])).1 = .ok take ∧
        take.peak = 1 ∧ take.rendered = 2 ∧
        take.samples ++ Array.replicate (4 - take.samples.size) 0 = #[16383, 32767, 16383, 0] := by
  intro bus
  have hroom : ∀ n ∈ overlapping, bus.routes n.channel = true → 0 ≤ n.start ∧ 0 ≤ n.finish := by
    decide
  have hmissing : (steady ℝ).missing bus overlapping = [⟨0, 1, 0, 4, 69, 64⟩] := rfl
  obtain ⟨htakes, _, hplays, _⟩ := renderBus_policies (steady ℝ) (.ofRack []) hroom
  have htake := htakes _ renderBus_steady
  refine ⟨hroom, hmissing, hplays ?_, htake.stops _ _ hmissing, ?_⟩
  · intro n _ i hfind _
    obtain rfl : i = steadyTone ℝ := List.mem_singleton.mp (List.mem_of_find?_eq_some hfind)
    exact playable_steady n
  · obtain ⟨take, hstrict, hpeak, hrendered, hsamples⟩ := htake.kept
    exact ⟨take, hstrict, hpeak.symm, hrendered.symm, hsamples.symm⟩

end

/-! ## A missing note after a fault -/

omit [Scalar.Faithful α] in
/-- At a sample rate that is no number nothing that has a length is rendered. -/
theorem renderNote_of_rate {fault : ArithFault} (hrate : Scalar.ofInt (α := α) s.sampleRate =
    .error fault) {n : Note} (hlong : 0 < n.duration) (i : Instrument α) (st : Stage α)
    (audio : List α) : (s.renderNote i n st).1 ≠ .ok audio := by
  have hsample (index : Int) (frequency : α) :
      Context.ofSample index n.duration n.pitch frequency s.sampleRate = .error fault := by
    rw [Context.ofSample, hrate]
    rfl
  obtain ⟨k, hk⟩ : ∃ k, n.duration.toNat = k + 1 := ⟨n.duration.toNat - 1, by omega⟩
  intro haudio
  unfold renderNote at haudio
  split at haudio
  · cases haudio
  · split at haudio
    · cases haudio
    · split at haudio
      · cases haudio
      · simp only [hk, List.range_succ_eq_map, samplesFrom, sampleAt, hsample, computed] at haudio
        cases haudio

omit [Scalar.Faithful α] in
theorem exists_soundOn_of_rate {fault : ArithFault} (hrate : Scalar.ofInt (α := α) s.sampleRate =
    .error fault) {n : Note} (hlong : 0 < n.duration) (i : Instrument α) (st : Stage α) :
    ∃ fault st', s.soundOn i n st = (.error fault, st') := by
  rw [soundOn, if_neg (by omega)]
  rcases hx : s.renderNote i n st with ⟨fault | audio, st₁⟩
  · exact ⟨fault, st₁, rfl⟩
  · exact absurd (congrArg Prod.fst hx) (renderNote_of_rate hrate hlong i st audio)

/-- A strict session at a sample rate beyond the range of doubles. -/
def tooFast : Session Float := ⟨(steady Float).arrangement, fun _ => none, 10 ^ 309, true⟩

/-- A note that an instrument plays, and one that none plays. -/
def halfMissing : List Note := [⟨0, 0, 0, 1, 60, 100⟩, ⟨0, 1, 0, 1, 60, 100⟩]

/-- The first note cannot be rendered, and that is what the session reports: nobody
learns of the second one, although no clip and no envelope is involved. -/
theorem missing_after_overflow :
    let bus : OutputBus := ⟨"o", "o", [0]⟩
    tooFast.strict = true ∧ 1 ≤ tooFast.sampleRate ∧
      (∀ n ∈ halfMissing, bus.routes n.channel = true → 0 ≤ n.start ∧ 0 ≤ n.finish) ∧
      tooFast.arrangement.rack = [] ∧ (∀ i ∈ tooFast.arrangement.instruments, i.modulators = []) ∧
      tooFast.missing bus halfMissing = [⟨0, 1, 0, 1, 60, 100⟩] ∧
      ∀ program, (tooFast.renderBus halfMissing bus (.ofRack [])).1 ≠
        .error (.missingInstrument program) := by
  intro bus
  refine ⟨rfl, one_le_pow₀ (by decide), by decide, rfl, ?_, rfl, fun program => ?_⟩
  · intro i hi
    rw [List.mem_singleton.mp hi]
    rfl
  · have hroom : InTime (bus.heard halfMissing) := by
      unfold InTime
      decide
    have hinfinite : (Float.ofInt (10 ^ 309)).isInf = true := by decide +kernel
    have hrate : Scalar.ofInt (α := Float) (10 ^ 309) = .error .overflow := if_pos hinfinite
    obtain ⟨fault, st, hx⟩ := exists_soundOn_of_rate (s := tooFast) (n := ⟨0, 0, 0, 1, 60, 100⟩)
      hrate (by decide) (steadyTone Float) (.ofRack [])
    have hserved := (tooFast.confined_soundOn (steadyTone Float) ⟨0, 0, 0, 1, 60, 100⟩).served
      (.ofRack [])
    have hheard : bus.heard halfMissing = [⟨0, 0, 0, 1, 60, 100⟩, ⟨0, 1, 0, 1, 60, 100⟩] := rfl
    have hsound : tooFast.sound ⟨0, 0, 0, 1, 60, 100⟩ (.ofRack []) =
        tooFast.soundOn (steadyTone Float) ⟨0, 0, 0, 1, 60, 100⟩ (.ofRack []) := rfl
    rw [hx] at hsound hserved
    rw [renderBus_eq hroom, hheard, perform_cons_of_error hsound]
    exact hserved.error rfl program

end Session

end Orchestrion

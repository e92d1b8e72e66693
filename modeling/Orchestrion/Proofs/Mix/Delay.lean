import Orchestrion.Proofs.Binary64.Faithful
import Orchestrion.Proofs.Mix.Independence
import Orchestrion.Proofs.Mix.Performance

set_option autoImplicit false

/-!
# Notes that come later

A note is rendered by its pitch and its length; when it begins does not matter before it
is mixed.  So notes that all come `k` samples later make the output that comes `k`
samples later, and where one fails the other does, of the same fault.
-/

namespace Orchestrion

variable {α : Type} [Scalar α]

/-- An output that begins so many samples later, after silence. -/
def Take.delayed (k : Nat) (take : Take α) : Take α :=
  { take with samples := Array.replicate k 0 ++ take.samples }

namespace Session

variable {s : Session α} {i : Instrument α} {n : Note} {st st' : Stage α}

/-! ## One note -/

omit [Scalar α] in
@[simp] theorem duration_later (k : Nat) (n : Note) : (n.later k).duration = n.duration := by
  simp only [Note.duration, Note.later]
  omega

/-- What sounds of a later note on an instrument is what sounds of the note, but later. -/
theorem soundOn_later (k : Nat) :
    s.soundOn i (n.later k) st =
      ((s.soundOn i n st).1.map (List.map (Part.later k)), (s.soundOn i n st).2) := by
  have hpitch : (n.later k).pitch = n.pitch := rfl
  rw [soundOn, soundOn, duration_later, renderNote_congr rfl rfl hpitch (duration_later k n)]
  by_cases hshort : n.duration ≤ 0
  · rw [if_pos hshort, if_pos hshort]
    rfl
  · rw [if_neg hshort, if_neg hshort]
    rcases s.renderNote i n st with ⟨fault | audio, st₁⟩ <;> rfl

/-- A note and a later one, on stages with the same banks, fail of the same fault or
sound the same. -/
theorem sound_later (k : Nat) (n : Note) (hrack : st.rack = st'.rack) :
    (∃ fault st₁ st₁', s.sound (n.later k) st = (.error fault, st₁) ∧
        s.sound n st' = (.error fault, st₁')) ∨
      ∃ parts st₁ st₁', s.sound (n.later k) st = (.ok (parts.map (Part.later k)), st₁) ∧
        s.sound n st' = (.ok parts, st₁') ∧ st₁.rack = st₁'.rack := by
  have hprogram : (n.later k).program = n.program := rfl
  rw [sound, sound, hprogram]
  cases s.arrangement.findInstrument n.program with
  | none =>
    cases s.strict with
    | true => exact .inl ⟨_, _, _, rfl, rfl⟩
    | false => exact .inr ⟨[], _, _, rfl, rfl, hrack⟩
  | some i =>
    simp only [soundOn_later]
    rcases (s.confined_soundOn i n).cases hrack with
      ⟨fault, st₁, st₁', hx, hx'⟩ | ⟨parts, st₁, st₁', hx, hx', hrack'⟩
    · rw [hx, hx']
      exact .inl ⟨fault, _, _, rfl, rfl⟩
    · rw [hx, hx']
      exact .inr ⟨parts, _, _, rfl, rfl, hrack'⟩

/-! ## Several notes -/

theorem perform_later (k : Nat) (notes : List Note) (hrack : st.rack = st'.rack) :
    (s.perform st (notes.map (Note.later k))).1 =
      (s.perform st' notes).1.map (List.map (Part.later k)) := by
  induction notes generalizing st st' with
  | nil => rfl
  | cons n rest ih =>
    rw [List.map_cons]
    rcases sound_later k n hrack with
      ⟨fault, st₁, st₁', hx, hx'⟩ | ⟨parts, st₁, st₁', hx, hx', hrack'⟩
    · rw [perform_cons_of_error hx, perform_cons_of_error hx']
      rfl
    · rw [perform_cons_of_ok hx, perform_cons_of_ok hx', ih hrack']
      cases (s.perform st₁' rest).1 with
      | error fault => rfl
      | ok more => simp only [Except.map, List.map_append]

omit [Scalar α] in
theorem lastEnd_later (k : Nat) {notes : List Note} (h : notes ≠ []) :
    lastEnd (notes.map (Note.later k)) = lastEnd notes + k := by
  cases notes with
  | nil => exact absurd rfl h
  | cons n rest =>
    rw [List.map_cons, lastEnd, lastEnd, List.foldl_map]
    have hfirst : (n.later k).finish = n.finish + k := rfl
    rw [hfirst]
    clear h
    generalize n.finish = first
    induction rest generalizing first with
    | nil => rfl
    | cons m rest ih =>
      have hmax : max (first + k) (m.later k).finish = max first m.finish + k := by
        simp only [Note.later]
        omega
      rw [List.foldl_cons, List.foldl_cons, hmax]
      exact ih _

omit [Scalar α] in
theorem InTime.later {notes : List Note} (h : InTime notes) (k : Nat) :
    InTime (notes.map (Note.later k)) := by
  intro m hm
  obtain ⟨n, hn, rfl⟩ := List.mem_map.mp hm
  obtain ⟨hstart, hfinish⟩ := h n hn
  simp only [Note.later]
  omega

/-! ## Outputs -/

variable [Scalar.Faithful α]

/-- On one stage, later notes make a later output. -/
theorem renderBus_later {notes : List Note} {bus : OutputBus} (h : InTime (bus.heard notes))
    (hsome : bus.heard notes ≠ []) (k : Nat) :
    (s.renderBus (notes.map (Note.later k)) bus st).1 =
      (s.renderBus notes bus st).1.map (Take.delayed k) := by
  have hheard : bus.heard (notes.map (Note.later k)) = (bus.heard notes).map (Note.later k) :=
    List.filter_map
  have hlater : InTime (bus.heard (notes.map (Note.later k))) := hheard ▸ h.later k
  rw [renderBus_eq h, renderBus_eq hlater, hheard]
  generalize bus.heard notes = routed at h hsome
  have hlast := lastEnd_later k hsome
  have hnonneg := lastEnd_nonneg h
  simp only [perform_later k routed rfl]
  rcases hplay : s.perform st routed with ⟨fault | parts, st₁⟩
  · rfl
  · have hlength : (lastEnd (routed.map (Note.later k))).toNat = k + (lastEnd routed).toNat + 0 := by
      omega
    obtain ⟨hpeak, hsamples⟩ := mixdown_padded h hplay hlength
    have hskipped : (routed.map (Note.later k)).countP s.isSkipped = routed.countP s.isSkipped :=
      List.countP_map
    simp only [Except.map, takeOf, Take.delayed]
    rw [hsamples, hpeak, hskipped, List.length_map, Array.replicate_zero, Array.append_empty]

/-- **Notes that come later.**  On an arrangement made from a document, with caches that
leave room for a clip, notes that all come `k` samples later are rendered to the same
take after `k` samples of silence, with the same peak and the same counts; or they fail,
of the same fault, as the notes themselves do.  Nothing depends on what was rendered
before either of the two. -/
theorem renderBus_delayed {base : Path} {limit : Option Int} {document : Document.Value}
    {a : Arrangement Float} (h : Build.arrangement base limit document = .ok a)
    (hlimit : PitchCache.IsRoomy limit) (load : ClipLoader Float) (sampleRate : Int)
    (strict : Bool) (visits visits' : List (Visit Float)) {notes : List Note} {bus : OutputBus}
    (hroom : ∀ n ∈ notes, bus.routes n.channel = true → 0 ≤ n.start ∧ 0 ≤ n.finish)
    (hsome : ∃ n ∈ notes, bus.routes n.channel = true) (k : Nat) :
    let s : Session Float := ⟨a, load, sampleRate, strict⟩
    (s.renderBus (notes.map (Note.later k)) bus (a.stageAfter load visits)).1 =
      (s.renderBus notes bus (a.stageAfter load visits')).1.map (Take.delayed k) := by
  intro s
  have hself := (Build.arrangement_of_limit h limit).1
  have hfresh : (Stage.ofRack a.rack).Settled load (a.rack.map Bank.files) := by
    have hemptied := a.settled_emptied load hlimit
    rwa [hself] at hemptied
  have hstage := Arrangement.settled_stageAfter hfresh visits
  have hstage' := Arrangement.settled_stageAfter hfresh visits'
  have hhistory := (renderBus_agree (.refl s) hstage hstage' notes bus).result
  have hheard : bus.heard notes ≠ [] := by
    obtain ⟨n, hn, hroutes⟩ := hsome
    exact List.ne_nil_of_mem (List.mem_filter.mpr ⟨hn, hroutes⟩)
  rw [renderBus_later (inTime_heard hroom) hheard k, hhistory]

end Session

/-- A note that sounds, one that no instrument plays and one without a length, all of
them five samples later, on a bank with room for one clip only. -/
theorem delayed_oneBank :
    let notes : List Note := [⟨0, 0, 0, 2, 62, 64⟩, ⟨0, 1, 1, 4, 62, 64⟩, ⟨0, 0, 3, 3, 60, 64⟩]
    let bus : OutputBus := ⟨"o", "o", [0]⟩
    PitchCache.IsRoomy (some 1) ∧
      (∀ n ∈ notes, bus.routes n.channel = true → 0 ≤ n.start ∧ 0 ≤ n.finish) ∧
      (∃ n ∈ notes, bus.routes n.channel = true) ∧
      ∃ a : Arrangement Float, Build.arrangement ⟨0, []⟩ (some 1) oneBank = .ok a ∧
        ∀ strict visits,
          ((⟨a, fun _ => some #[0.5, 0.25], 44100, strict⟩ : Session Float).renderBus
            [⟨0, 0, 5, 7, 62, 64⟩, ⟨0, 1, 6, 9, 62, 64⟩, ⟨0, 0, 8, 8, 60, 64⟩] bus
            (a.stageAfter (fun _ => some #[0.5, 0.25]) visits)).1 =
          ((⟨a, fun _ => some #[0.5, 0.25], 44100, strict⟩ : Session Float).renderBus notes bus
            (.ofRack a.rack)).1.map (Take.delayed 5) := by
  intro notes bus
  have hroomy : PitchCache.IsRoomy (some 1) := PitchCache.isRoomy_some.mpr (by decide)
  have hroom : ∀ n ∈ notes, bus.routes n.channel = true → 0 ≤ n.start ∧ 0 ≤ n.finish := by decide
  have hsome : ∃ n ∈ notes, bus.routes n.channel = true := by decide
  refine ⟨hroomy, hroom, hsome, _, arrangement_oneBank ⟨0, []⟩ (some 1), ?_⟩
  intro strict visits
  exact Session.renderBus_delayed (arrangement_oneBank ⟨0, []⟩ (some 1)) hroomy
    (fun _ => some #[0.5, 0.25]) 44100 strict visits [] hroom hsome 5

end Orchestrion

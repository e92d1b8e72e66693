import Orchestrion.Proofs.Mix.Outputs
import Orchestrion.Proofs.Mix.Places
import Orchestrion.Proofs.Mix.Playable

set_option autoImplicit false

/-!
# What can stop a rendering

A score whose times go forward, at a sample rate that is not negative, is rendered in full
unless a note fails on its instrument or no instrument plays it: neither the length of an
output nor the place of a note stops it.  A note that can be played does not fail, so a
score of such notes is rendered unless an instrument is missing.

The sample rate of a document may be negative, though.  A note then ends before it begins,
and the output that it is heard on would have a negative length.
-/

namespace Orchestrion

/-- A step that fails on a list fails on one of its items. -/
theorem exists_of_mapM_eq_error {ε β γ : Type} {f : β → Except ε γ} {xs : List β} {fault : ε}
    (h : xs.mapM f = .error fault) : ∃ x ∈ xs, f x = .error fault := by
  induction xs with
  | nil => cases h
  | cons x rest ih =>
    rw [List.mapM_cons] at h
    cases hx : f x with
    | error fault' =>
      rw [hx] at h
      cases h
      exact ⟨x, List.mem_cons_self, hx⟩
    | ok b =>
      rw [hx] at h
      cases hrest : rest.mapM f with
      | error fault' =>
        rw [hrest] at h
        cases h
        obtain ⟨y, hy, hfault⟩ := ih hrest
        exact ⟨y, List.mem_cons_of_mem x hy, hfault⟩
      | ok more =>
        rw [hrest] at h
        cases h

namespace Session

/-- A note that can be played does not fail, whatever has been played before. -/
theorem not_isFailing {α : Type} [Scalar α] [Scalar.Counts α] {s : Session α}
    {rack : List (Bank α)} {n : Note} (fault : Fault)
    (h : ∀ i, s.arrangement.findInstrument n.program = some i → 0 < n.duration →
      s.Playable rack i n) : ¬s.IsFailing rack n fault := by
  rintro ⟨i, st, hfind, hlong, hframes, hrender⟩
  obtain ⟨audio, haudio⟩ := ((h i hfind hlong).of_frames hframes).exists_renderNote
  rw [haudio] at hrender
  cases hrender

/-- All outputs of an arrangement that was built fail of a note on one of them. -/
theorem fault_of_renderAll {base : Path} {limit : Option Int} {document : Document.Value}
    {a : Arrangement Float} (h : Build.arrangement base limit document = .ok a)
    (load : ClipLoader Float) (sampleRate : Int) (strict : Bool) {notes : List Note}
    (htime : InTime notes) {fault : Fault} :
    let s : Session Float := ⟨a, load, sampleRate, strict⟩
    (s.renderAll notes (.ofRack a.rack)).1 = .error fault →
      ∃ n ∈ notes, s.IsFailing a.rack n fault ∨ s.IsLacking n fault := by
  intro s hfault
  obtain ⟨P, hstage, hrepeats⟩ := Build.exists_repeats h load
  have hfresh : P (.ofRack a.rack) := hstage []
  have hself : Repeats P s s := hrepeats sampleRate strict
  rw [hself.renderAll_eq hfresh hfresh] at hfault
  cases heach : s.arrangement.outputs.mapM fun bus =>
      (s.renderBus notes bus (.ofRack a.rack)).1 with
  | ok takes =>
    rw [heach] at hfault
    cases hfault
  | error fault' =>
    rw [heach] at hfault
    cases hfault
    obtain ⟨bus, _, hbus⟩ := exists_of_mapM_eq_error heach
    have hheard : InTime (bus.heard notes) := inTime_heard fun n hn _ => htime n hn
    obtain ⟨n, hn, hfails⟩ := fault_of_renderBus hheard hbus
    exact ⟨n, List.mem_of_mem_filter hn, hfails⟩

end Session

/-! ## Scores -/

/-- **A score is rendered unless one of its notes cannot be.**  Let a document make an
arrangement whose sample rate is not negative, and let the delays of some messages not be
negative and their times be computed.  If the rendering of all outputs fails, a note of
the score fails on its instrument, or the policy is strict and no instrument plays it.  If
every note can be played on its instrument, all outputs are rendered, or an instrument is
missing. -/
theorem renderAll_of_score {base : Path} {limit : Option Int} {document : Document.Value}
    {a : Arrangement Float} (h : Build.arrangement base limit document = .ok a)
    (load : ClipLoader Float) {messages : List (TimedMessage Float)} {nows : List Int}
    (hrate : 0 ≤ a.sampleRate) (hforward : Score.Forward messages)
    (hclock : Score.clock a.sampleRate 0.0 messages = .ok nows) :
    ∃ found warnings, Score.notes messages a.sampleRate = .ok (found, warnings) ∧
      let s := Session.ofArrangement a load
      let result := (s.renderAll found (.ofRack a.rack)).1
      (∀ fault, result = .error fault →
        ∃ n ∈ found, s.IsFailing a.rack n fault ∨ s.IsLacking n fault) ∧
      ((∀ n ∈ found, ∀ i, a.findInstrument n.program = some i → 0 < n.duration →
        s.Playable a.rack i n) →
          (∃ table, result = .ok table) ∨
            ∃ n ∈ found, ∃ fault, s.IsLacking n fault ∧ result = .error fault) := by
  obtain ⟨found, warnings, hnotes, horder⟩ := Score.exists_notes_inOrder hrate hforward hclock
  refine ⟨found, warnings, hnotes, ?_⟩
  intro s result
  have htime : Session.InTime found := by
    intro n hn
    have hstart := horder.start_nonneg n hn
    exact ⟨hstart, hstart.trans (horder.start_le_finish n hn)⟩
  have hfault : ∀ fault, result = .error fault →
      ∃ n ∈ found, s.IsFailing a.rack n fault ∨ s.IsLacking n fault :=
    fun fault => Session.fault_of_renderAll h load a.sampleRate a.strict htime
  refine ⟨hfault, fun hplayable => ?_⟩
  cases hresult : result with
  | ok table => exact .inl ⟨table, rfl⟩
  | error fault =>
    obtain ⟨n, hn, hfailing | hlacking⟩ := hfault fault hresult
    · exact absurd hfailing (Session.not_isFailing fault (hplayable n hn))
    · exact .inr ⟨n, hn, fault, hlacking, rfl⟩

/-- A document of one output and no instrument, at a sample rate. -/
def oneOutput (rate : Int) : Document.Value :=
  .map [
    (.text "metadata", .map [(.text "sample_rate", .atom (.int rate)),
      (.text "strict", .atom (.bool false))]),
    (.text "outputs", .list [.map [(.text "output_file", .ofText "o.wav"),
      (.text "channels", .list [.atom (.int 0)])]])]

theorem arrangement_oneOutput (base : Path) (limit : Option Int) (rate : Int) :
    Build.arrangement base limit (oneOutput rate) =
      .ok ⟨rate, false, none, "", [], [], [], [], [⟨"o.wav", "o.wav", [0]⟩]⟩ := rfl

/-- At two samples in a second a note of half a second is left out of the output, which is
as long as if it had the note. -/
theorem renderAll_strike :
    ∃ a : Arrangement Float, Build.arrangement ⟨0, []⟩ none (oneOutput 2) = .ok a ∧
      0 ≤ a.sampleRate ∧ Score.Forward strike ∧ Score.clock a.sampleRate 0.0 strike = .ok [0, 2] ∧
      ∃ found warnings, Score.notes strike a.sampleRate = .ok (found, warnings) ∧
        ∃ table, ((Session.ofArrangement a fun _ => none).renderAll found (.ofRack a.rack)).1 =
          .ok table := by
  have hforward : Score.Forward strike := by
    unfold Score.Forward
    decide +kernel
  have hclock : Score.clock 2 0.0 strike = .ok [0, 2] := by decide +kernel
  have harrangement := arrangement_oneOutput ⟨0, []⟩ none 2
  obtain ⟨found, warnings, hnotes, _, hall⟩ :=
    renderAll_of_score harrangement (fun _ => none) (by decide) hforward hclock
  refine ⟨_, harrangement, by decide, hforward, hclock, found, warnings, hnotes, ?_⟩
  rcases hall (fun n _ i hfind => by cases hfind) with htable | ⟨n, _, fault, ⟨hstrict, _⟩, _⟩
  · exact htable
  · cases hstrict

/-- At a sample rate below zero a note of one second ends before it begins, and the output
that it is heard on cannot be made. -/
theorem renderAll_negative_rate :
    let messages : List (TimedMessage Float) := [⟨0.0, .noteOn 0 60 100⟩, ⟨1.0, .noteOff 0 60 0⟩]
    Score.Forward messages ∧
      ∃ a : Arrangement Float, Build.arrangement ⟨0, []⟩ none (oneOutput (-1)) = .ok a ∧
        Score.notes messages a.sampleRate = .ok ([⟨0, 0, 0, -1, 60, 100⟩], []) ∧
        ((Session.ofArrangement a fun _ => none).renderAll [⟨0, 0, 0, -1, 60, 100⟩]
          (.ofRack a.rack)).1 = .error .negativeLength := by
  intro messages
  have hforward : Score.Forward messages := by
    unfold Score.Forward
    decide +kernel
  have hnotes : Score.notes messages (-1) = .ok ([⟨0, 0, 0, -1, 60, 100⟩], []) := by
    decide +kernel
  exact ⟨hforward, _, arrangement_oneOutput ⟨0, []⟩ none (-1), hnotes, rfl⟩

end Orchestrion

import Orchestrion.Mix.Session
import Orchestrion.Proofs.Arrangement.Limit
import Orchestrion.Proofs.Signal.Stage

set_option autoImplicit false

/-!
# Rendering does not depend on history

Sessions on arrangements that differ in their caches only come to the same
results, the faults included, whatever has been rendered before.  The argument is about
single notes: sessions that render each note alike, on stages of a kind that no note
leaves, render outputs alike and leave a stage of that kind.  Settled stages are such a
kind.
-/

namespace Orchestrion

variable {α : Type} [Scalar α] {load : ClipLoader α} {files : List (List (Int × String))}
  {st st' : Stage α}

/-! ## Instruments -/

theorem Instrument.prime_agree (hst : st.Settled load files) (hst' : st'.Settled load files)
    (i : Instrument α) (ctx : Context α) :
    Agree (Stage.Settled load files) (i.prime load ctx st) (i.prime load ctx st') :=
  i.carrier.prime_agree hst hst' ctx

theorem Instrument.sample_agree {i : Instrument α} {ctx : Context α}
    (hst : st.Ready load files (Bank.intValue ctx Context.pitchName) i.carrier)
    (hst' : st'.Ready load files (Bank.intValue ctx Context.pitchName) i.carrier) :
    Agree (Stage.Ready load files (Bank.intValue ctx Context.pitchName) i.carrier)
      (i.sample ctx st) (i.sample ctx st') := by
  unfold Instrument.sample
  rcases (Source.carrier_agree hst hst').cases with
    ⟨fault, st₁, st₁', hx, hx', h, h'⟩ | ⟨value, st₁, st₁', hx, hx', h, h'⟩
  · rw [hx, hx']
    exact ⟨rfl, h, h'⟩
  · rw [hx, hx']
    cases value <;> exact ⟨rfl, h, h'⟩

namespace Session

/-- Sessions that play in the same way, on arrangements with the same
instruments and outputs. -/
structure Alike (s s' : Session α) : Prop where
  load : s.load = s'.load
  sampleRate : s.sampleRate = s'.sampleRate
  strict : s.strict = s'.strict
  instruments : s.arrangement.instruments = s'.arrangement.instruments
  outputs : s.arrangement.outputs = s'.arrangement.outputs

omit [Scalar α] in
theorem Alike.refl (s : Session α) : s.Alike s := ⟨rfl, rfl, rfl, rfl, rfl⟩

variable {s s' : Session α}

/-! ## One note -/

theorem sampleAt_agree (hs : s.Alike s') {i : Instrument α} {n : Note} {ctx : Context α}
    (hctx : Context.ofPitch n.pitch = .ok ctx)
    (hst : st.Ready load files (Bank.intValue ctx Context.pitchName) i.carrier)
    (hst' : st'.Ready load files (Bank.intValue ctx Context.pitchName) i.carrier)
    (frequency : α) (index : Nat) :
    Agree (Stage.Ready load files (Bank.intValue ctx Context.pitchName) i.carrier)
      (s.sampleAt i n frequency st index) (s'.sampleAt i n frequency st' index) := by
  unfold sampleAt
  rw [hs.sampleRate]
  cases hsample : computed (Context.ofSample index n.duration n.pitch frequency s'.sampleRate) with
  | error fault => exact ⟨rfl, hst, hst'⟩
  | ok ctx' =>
    -- the pitch that was prepared is the pitch that is played
    have hpitch := Context.intValue_pitchName hctx (eq_ok_of_computed hsample)
    rw [← hpitch] at hst hst' ⊢
    simp only
    rcases (Instrument.sample_agree hst hst').cases with
      ⟨fault, st₁, st₁', hx, hx', h, h'⟩ | ⟨value, st₁, st₁', hx, hx', h, h'⟩
    · rw [hx, hx']
      exact ⟨rfl, h, h'⟩
    · rw [hx, hx']
      cases value <;> exact ⟨rfl, h, h'⟩

theorem samplesFrom_agree (hs : s.Alike s') {i : Instrument α} {n : Note} {ctx : Context α}
    (hctx : Context.ofPitch n.pitch = .ok ctx)
    (hst : st.Ready load files (Bank.intValue ctx Context.pitchName) i.carrier)
    (hst' : st'.Ready load files (Bank.intValue ctx Context.pitchName) i.carrier)
    (frequency : α) (found : List α) (indices : List Nat) :
    Agree (Stage.Ready load files (Bank.intValue ctx Context.pitchName) i.carrier)
      (s.samplesFrom i n frequency st found indices)
      (s'.samplesFrom i n frequency st' found indices) := by
  induction indices generalizing st st' found with
  | nil => exact ⟨rfl, hst, hst'⟩
  | cons index rest ih =>
    unfold samplesFrom
    rcases (sampleAt_agree hs hctx hst hst' frequency index).cases with
      ⟨fault, st₁, st₁', hx, hx', h, h'⟩ | ⟨x, st₁, st₁', hx, hx', h, h'⟩
    · rw [hx, hx']
      exact ⟨rfl, h, h'⟩
    · rw [hx, hx']
      exact ih h h' (x :: found)

theorem renderNote_agree (hs : s.Alike s') (hst : st.Settled s.load files)
    (hst' : st'.Settled s.load files) (i : Instrument α) (n : Note) :
    Agree (Stage.Settled s.load files) (s.renderNote i n st) (s'.renderNote i n st') := by
  unfold renderNote
  rw [← hs.load]
  cases hctx : computed (Context.ofPitch (α := α) n.pitch) with
  | error fault => exact ⟨rfl, hst, hst'⟩
  | ok ctx =>
    simp only
    rcases (i.prime_agree hst hst' ctx).cases with
      ⟨fault, st₁, st₁', hx, hx', h, h'⟩ | ⟨_, st₁, st₁', hx, hx', h, h'⟩
    · rw [hx, hx']
      exact ⟨rfl, h, h'⟩
    · rw [hx, hx']
      simp only
      cases computed (n.frequency (α := α)) with
      | error fault => exact ⟨rfl, h, h'⟩
      | ok frequency =>
        exact (samplesFrom_agree hs (eq_ok_of_computed hctx) (Source.ready_of_prime hst hx)
          (Source.ready_of_prime hst' hx') frequency [] _).mono fun _ hready => hready.settled

/-! ## Sessions that repeat themselves -/

/-- Sessions that render each note alike, on stages of a kind that no note leaves. -/
structure Repeats (P : Stage α → Prop) (s s' : Session α) : Prop where
  alike : s.Alike s'
  /-- only the banks matter, and not what has been told -/
  banks : ∀ st st', st'.rack = st.rack → P st → P st'
  note : ∀ i n st st', P st → P st' → Agree P (s.renderNote i n st) (s'.renderNote i n st')

theorem repeats_settled (hs : s.Alike s') (files : List (List (Int × String))) :
    Repeats (Stage.Settled s.load files) s s' :=
  ⟨hs, fun _ _ hrack hst => hst.of_rack hrack,
    fun i n _ _ hst hst' => renderNote_agree hs hst hst' i n⟩

namespace Repeats

variable {P : Stage α → Prop} (h : Repeats P s s') (hst : P st) (hst' : P st')

include h hst hst'

/-! ### One output -/

theorem addNote (desk : Desk α) (n : Note) :
    Agree P (s.addNote desk n st) (s'.addNote desk n st') := by
  have hfind : s.arrangement.findInstrument n.program = s'.arrangement.findInstrument n.program := by
    rw [Arrangement.findInstrument, Arrangement.findInstrument, h.alike.instruments]
  unfold Session.addNote
  rw [hfind, h.alike.strict]
  cases s'.arrangement.findInstrument n.program with
  | none =>
    cases s'.strict with
    | true => exact ⟨rfl, hst, hst'⟩
    | false => exact ⟨rfl, h.banks st _ rfl hst, h.banks st' _ rfl hst'⟩
  | some i =>
    simp only
    split
    · exact ⟨rfl, hst, hst'⟩
    · rcases (h.note i n st st' hst hst').cases with
        ⟨fault, st₁, st₁', hx, hx', hst₁, hst₁'⟩ | ⟨samples, st₁, st₁', hx, hx', hst₁, hst₁'⟩
      · rw [hx, hx']
        exact ⟨rfl, hst₁, hst₁'⟩
      · rw [hx, hx']
        simp only
        cases Mix.placeOf? desk.mix.slots.size n <;> exact ⟨rfl, hst₁, hst₁'⟩

theorem addNotes (desk : Desk α) (notes : List Note) :
    Agree P (s.addNotes desk st notes) (s'.addNotes desk st' notes) := by
  induction notes generalizing st st' desk with
  | nil => exact ⟨rfl, hst, hst'⟩
  | cons n rest ih =>
    unfold Session.addNotes
    rcases (h.addNote hst hst' desk n).cases with
      ⟨fault, st₁, st₁', hx, hx', hst₁, hst₁'⟩ | ⟨desk', st₁, st₁', hx, hx', hst₁, hst₁'⟩
    · rw [hx, hx']
      exact ⟨rfl, hst₁, hst₁'⟩
    · rw [hx, hx']
      exact ih hst₁ hst₁' desk'

theorem renderBus (notes : List Note) (bus : OutputBus) :
    Agree P (s.renderBus notes bus st) (s'.renderBus notes bus st') := by
  unfold Session.renderBus
  simp only
  split
  · exact ⟨rfl, hst, hst'⟩
  · rcases (h.addNotes hst hst' _ _).cases with
      ⟨fault, st₁, st₁', hx, hx', hst₁, hst₁'⟩ | ⟨desk, st₁, st₁', hx, hx', hst₁, hst₁'⟩
    · rw [hx, hx']
      exact ⟨rfl, hst₁, hst₁'⟩
    · rw [hx, hx']
      exact ⟨rfl, hst₁, hst₁'⟩

/-! ### All outputs -/

theorem renderEach (notes : List Note) (buses : List OutputBus) :
    Agree P (s.renderEach notes st buses) (s'.renderEach notes st' buses) := by
  induction buses generalizing st st' with
  | nil => exact ⟨rfl, hst, hst'⟩
  | cons bus rest ih =>
    unfold Session.renderEach
    rcases (h.renderBus hst hst' notes bus).cases with
      ⟨fault, st₁, st₁', hx, hx', hst₁, hst₁'⟩ | ⟨take, st₁, st₁', hx, hx', hst₁, hst₁'⟩
    · rw [hx, hx']
      exact ⟨rfl, hst₁, hst₁'⟩
    · rw [hx, hx']
      simp only
      rcases (ih hst₁ hst₁').cases with
        ⟨fault, st₂, st₂', hy, hy', hst₂, hst₂'⟩ | ⟨takes, st₂, st₂', hy, hy', hst₂, hst₂'⟩
      · rw [hy, hy']
        exact ⟨rfl, hst₂, hst₂'⟩
      · rw [hy, hy']
        exact ⟨rfl, hst₂, hst₂'⟩

theorem renderAll (notes : List Note) :
    Agree P (s.renderAll notes st) (s'.renderAll notes st') := by
  unfold Session.renderAll
  rw [h.alike.outputs]
  rcases (h.renderEach hst hst' notes s'.arrangement.outputs).cases with
    ⟨fault, st₁, st₁', hx, hx', hst₁, hst₁'⟩ | ⟨takes, st₁, st₁', hx, hx', hst₁, hst₁'⟩
  · rw [hx, hx']
    exact ⟨rfl, hst₁, hst₁'⟩
  · rw [hx, hx']
    exact ⟨rfl, hst₁, hst₁'⟩

/-- The outputs are rendered one by one, each like any other time. -/
theorem renderEach_eq_mapM (notes : List Note) (buses : List OutputBus) :
    (s.renderEach notes st buses).1 = buses.mapM fun bus => (s'.renderBus notes bus st').1 := by
  induction buses generalizing st with
  | nil => rfl
  | cons bus rest ih =>
    rw [List.mapM_cons]
    unfold Session.renderEach
    rcases (h.renderBus hst hst' notes bus).cases with
      ⟨fault, st₁, st₁', hx, hx', hst₁, hst₁'⟩ | ⟨take, st₁, st₁', hx, hx', hst₁, hst₁'⟩
    · rw [hx, hx']
      rfl
    · rw [hx, hx', ← ih hst₁]
      simp only
      rcases s.renderEach notes st₁ rest with ⟨fault | takes, st₂⟩ <;> rfl

end Repeats

theorem renderBus_agree (hs : s.Alike s') (hst : st.Settled s.load files)
    (hst' : st'.Settled s.load files) (notes : List Note) (bus : OutputBus) :
    Agree (Stage.Settled s.load files) (s.renderBus notes bus st)
      (s'.renderBus notes bus st') :=
  (repeats_settled hs files).renderBus hst hst' notes bus

/-- The samples of some takes under the names of their outputs. -/
def samplesOf (takes : List (Take α)) : List (String × Array Int) :=
  takes.foldl (fun table take => putSamples table take.bus.name take.samples) []

/-- All outputs together come to what each comes to by itself. -/
theorem Repeats.renderAll_eq {P : Stage α → Prop} (h : Repeats P s s') (hst : P st) (hst' : P st')
    (notes : List Note) :
    (s.renderAll notes st).1 =
      samplesOf <$> s'.arrangement.outputs.mapM fun bus => (s'.renderBus notes bus st').1 := by
  rw [← h.renderEach_eq_mapM hst hst', ← h.alike.outputs]
  unfold Session.renderAll
  rcases s.renderEach notes st s.arrangement.outputs with ⟨fault | takes, st₁⟩ <;> rfl

theorem renderAll_eq_mapM (hs : s.Alike s') (hst : st.Settled s.load files)
    (hst' : st'.Settled s.load files) (notes : List Note) :
    (s.renderAll notes st).1 =
      samplesOf <$> s'.arrangement.outputs.mapM fun bus => (s'.renderBus notes bus st').1 :=
  (repeats_settled hs files).renderAll_eq hst hst' notes

/-! ## Histories -/

/-- Something to be rendered. -/
inductive Request (α : Type) where
  | note (i : Instrument α) (n : Note)
  | bus (notes : List Note) (bus : OutputBus)
  | all (notes : List Note)

/-- The stage after something has been rendered, or has failed to be. -/
def after (s : Session α) (st : Stage α) : Request α → Stage α
  | .note i n => (s.renderNote i n st).2
  | .bus notes bus => (s.renderBus notes bus st).2
  | .all notes => (s.renderAll notes st).2

theorem Repeats.after {P : Stage α → Prop} (h : Repeats P s s) (hst : P st)
    (request : Request α) : P (s.after st request) := by
  cases request with
  | note i n => exact (h.note i n st st hst hst).left
  | bus notes bus => exact (h.renderBus hst hst notes bus).left
  | all notes => exact (h.renderAll hst hst notes).left

end Session

/-- Something that was once rendered, at a sample rate and with a policy of its
own. -/
structure Visit (α : Type) where
  sampleRate : Int
  strict : Bool
  request : Session.Request α

namespace Arrangement

/-- The stage of an arrangement after some visits, one after the other. -/
def stageAfter (a : Arrangement α) (load : ClipLoader α) (visits : List (Visit α)) : Stage α :=
  visits.foldl (fun st v => Session.after ⟨a, load, v.sampleRate, v.strict⟩ st v.request)
    (.ofRack a.rack)

/-- An arrangement with empty caches that may hold a clip is settled. -/
theorem settled_emptied (a : Arrangement α) (load : ClipLoader α) {limit : Option Int}
    (h : PitchCache.IsRoomy limit) :
    (Stage.ofRack (a.emptied limit).rack).Settled load (a.rack.map Bank.files) := by
  have hrack : (a.emptied limit).rack = a.rack.map (Bank.emptied limit) := by
    simp [rack, emptied]
  refine ⟨?_, ?_⟩
  · rw [Stage.ofRack, hrack, List.map_map]
    rfl
  · intro b hb
    rw [Stage.ofRack, hrack] at hb
    obtain ⟨b₀, _, rfl⟩ := List.mem_map.mp hb
    exact ⟨Bank.coherent_of_entries_eq_nil rfl, h⟩

/-- What each visit keeps, any number of visits keep. -/
theorem keeps_stageAfter {P : Stage α → Prop} {a : Arrangement α}
    (hrepeats : ∀ sampleRate strict,
      Session.Repeats P ⟨a, load, sampleRate, strict⟩ ⟨a, load, sampleRate, strict⟩)
    (h : P (.ofRack a.rack)) (visits : List (Visit α)) : P (a.stageAfter load visits) := by
  unfold stageAfter
  generalize Stage.ofRack a.rack = st at h
  induction visits generalizing st with
  | nil => exact h
  | cons v rest ih => exact ih _ ((hrepeats v.sampleRate v.strict).after h v.request)

theorem settled_stageAfter {a : Arrangement α} (h : (Stage.ofRack a.rack).Settled load files)
    (visits : List (Visit α)) : (a.stageAfter load visits).Settled load files :=
  keeps_stageAfter (fun sampleRate strict =>
    Session.repeats_settled (.refl ⟨a, load, sampleRate, strict⟩) files) h visits

end Arrangement

/-- **Rendering depends neither on history nor on the limit of the caches.**  A
document that makes an arrangement makes one with any other limit.  When both
limits leave room for a clip, sessions of one sample rate and one policy render
an output to the same take, or fail of the same fault, whatever was rendered on
either arrangement before, and however that ended; the same holds of a single
note.  All outputs together come to what each comes to by itself on a new
arrangement. -/
theorem Session.renders_alike {base : Path} {limit limit' : Option Int}
    {document : Document.Value} {a : Arrangement Float}
    (h : Build.arrangement base limit document = .ok a) (hlimit : PitchCache.IsRoomy limit)
    (hlimit' : PitchCache.IsRoomy limit') (load : ClipLoader Float) (sampleRate : Int)
    (strict : Bool) :
    ∃ a', Build.arrangement base limit' document = .ok a' ∧
      ∀ visits visits' : List (Visit Float),
        let s : Session Float := ⟨a, load, sampleRate, strict⟩
        let s' : Session Float := ⟨a', load, sampleRate, strict⟩
        let st := a.stageAfter load visits
        let st' := a'.stageAfter load visits'
        (∀ notes bus, (s.renderBus notes bus st).1 = (s'.renderBus notes bus st').1) ∧
        (∀ i n, (s.renderNote i n st).1 = (s'.renderNote i n st').1) ∧
        (∀ notes, (s.renderAll notes st).1 =
          Session.samplesOf <$> a'.outputs.mapM fun bus =>
            (s'.renderBus notes bus (.ofRack a'.rack)).1) := by
  obtain ⟨hself, h'⟩ := Build.arrangement_of_limit h limit'
  refine ⟨a.emptied limit', h', ?_⟩
  intro visits visits' s s' st st'
  have hs : s.Alike s' := ⟨rfl, rfl, rfl, rfl, rfl⟩
  have hfresh : (Stage.ofRack a.rack).Settled load (a.rack.map Bank.files) := by
    have hemptied := a.settled_emptied load hlimit
    rw [hself] at hemptied
    exact hemptied
  have hfresh' : (Stage.ofRack (a.emptied limit').rack).Settled load (a.rack.map Bank.files) :=
    a.settled_emptied load hlimit'
  have hst : st.Settled load (a.rack.map Bank.files) := Arrangement.settled_stageAfter hfresh visits
  have hst' : st'.Settled load (a.rack.map Bank.files) :=
    Arrangement.settled_stageAfter hfresh' visits'
  exact ⟨fun notes bus => (Session.renderBus_agree hs hst hst' notes bus).result,
    fun i n => (Session.renderNote_agree hs hst hst' i n).result,
    fun notes => Session.renderAll_eq_mapM hs hst hfresh' notes⟩

/-- A document of one bank, an instrument that plays it, and an output. -/
def oneBank : Document.Value :=
  .map [
    (.text "sample_banks", .list [.map [(.text "name", .ofText "b"),
      (.text "files", .map [(.int 60, .ofText "c")])]]),
    (.text "instruments", .list [.map [(.text "name", .ofText "i"),
      (.text "carrier", .ofText "b"), (.text "midi_inst", .atom (.int 0))]]),
    (.text "outputs", .list [.map [(.text "output_file", .ofText "o"),
      (.text "channels", .list [.atom (.int 0)])]])]

/-- The arrangement of the document. -/
theorem arrangement_oneBank (base : Path) (limit : Option Int) :
    Build.arrangement base limit oneBank =
      .ok ⟨44100, true, none, "",
        [(.text "b", ⟨.text "b", [(60, (base.join (.ofText "c")).text)], .empty limit⟩)], [], [],
        [⟨.ofText "i", 0, false, .bank 0, []⟩], [⟨"o", "o", [0]⟩]⟩ := by
  have hfiles : ∀ path, Bank.filesOf [] [(.int 60, path)] = .ok [(60, path)] := fun _ => rfl
  have hbank : Build.bank base limit (.map [(.text "name", .ofText "b"),
      (.text "files", .map [(.int 60, .ofText "c")])]) =
      .ok (.text "b", ⟨.text "b", [(60, (base.join (.ofText "c")).text)], .empty limit⟩) := by
    simp [Build.bank, Build.require, Build.mapping, Build.clipPaths, Build.each, Build.resolve,
      Document.field?, Document.find?, Document.Atom.key, Document.Value.ofText, bind,
      Except.bind, hfiles]
    rfl
  simp [Build.arrangement, oneBank, Document.field?, Document.find?, Document.Atom.key,
    Document.Value.isTrue, Document.Value.items?, bind, Except.bind, Build.section?,
    Build.tabulate, hbank]
  rfl

/-- With room for one clip only, a bank that has played any notes plays the next
ones like a new bank that keeps all of its clips. -/
theorem renders_alike_oneBank :
    PitchCache.IsRoomy (some 1) ∧ PitchCache.IsRoomy none ∧
      ∃ a a' : Arrangement Float, Build.arrangement ⟨0, []⟩ (some 1) oneBank = .ok a ∧
        Build.arrangement ⟨0, []⟩ none oneBank = .ok a' ∧
        ∀ visits notes bus,
          ((⟨a, fun _ => some #[0.5], 44100, true⟩ : Session Float).renderBus notes bus
            (a.stageAfter (fun _ => some #[0.5]) visits)).1 =
          ((⟨a', fun _ => some #[0.5], 44100, true⟩ : Session Float).renderBus notes bus
            (.ofRack a'.rack)).1 := by
  have hone : PitchCache.IsRoomy (some 1) := PitchCache.isRoomy_some.mpr (by decide)
  obtain ⟨a', h', halike⟩ := Session.renders_alike (arrangement_oneBank ⟨0, []⟩ (some 1)) hone
    PitchCache.isRoomy_none (fun _ => some #[0.5]) 44100 true
  refine ⟨hone, PitchCache.isRoomy_none, _, a', arrangement_oneBank ⟨0, []⟩ (some 1), h', ?_⟩
  intro visits notes bus
  exact (halike visits []).1 notes bus

end Orchestrion

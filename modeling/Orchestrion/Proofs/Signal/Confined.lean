import Orchestrion.Instrument
import Orchestrion.Proofs.Signal.Coherence

set_option autoImplicit false

/-!
# Runs that see only the banks

What a source or an instrument does on a stage depends on the banks alone: it adds to
the trace and never reads it.  The banks keep their files and their limits, and those
that are empty and have no room for a clip stay as they are.  No note is skipped, and
nothing fails for want of an instrument or of a place in a mix; these are matters of
whoever plays the notes.  Runs of this kind may follow one another, so every note is
rendered by such a run.
-/

namespace Orchestrion

/-! ## Skipped notes in a trace -/

/-- Whether a warning is about a note that was left out. -/
def Warning.isSkip : Warning → Bool
  | .skippedNote _ _ _ => true
  | _ => false

/-- The warnings about notes that were left out, in order. -/
def Event.skips (trace : List Event) : List Warning :=
  (Event.warnings trace).filter Warning.isSkip

theorem Event.skips_append (trace told : List Event) :
    skips (trace ++ told) = skips trace ++ skips told := by
  simp only [skips, warnings, List.filterMap_append, List.filter_append]

/-! ## Faults of sources -/

variable {α ρ β : Type}

/-- Whether a source may fail so; the other faults are those of whoever mixes notes. -/
def Fault.isOfSource : Fault → Bool
  | .missingInstrument _ | .negativeLength | .misplaced => false
  | _ => true

/-- A result that failed, if at all, as a source may. -/
def Sourced (r : Except Fault ρ) : Prop := ∀ fault, r = .error fault → fault.isOfSource = true

theorem sourced_ok (x : ρ) : Sourced (.ok x) := fun _ => nofun

theorem sourced_error {fault : Fault} (h : fault.isOfSource = true) :
    Sourced (.error fault : Except Fault ρ) := by
  intro fault' hfault
  cases hfault
  exact h

theorem sourced_computed (r : Except ArithFault ρ) : Sourced (computed r) := by
  cases r with
  | ok x => exact sourced_ok x
  | error fault => exact sourced_error rfl

/-- A fault that was handed on came from somewhere. -/
theorem Sourced.error {r : Except Fault ρ} {fault : Fault} (h : Sourced r) (hr : r = .error fault) :
    Sourced (.error fault : Except Fault β) :=
  sourced_error (h fault hr)

/-- A result that did not fail for want of an instrument. -/
def Served (r : Except Fault ρ) : Prop := ∀ program, r ≠ .error (.missingInstrument program)

theorem served_ok (x : ρ) : Served (.ok x) := fun _ => nofun

theorem Served.error {r : Except Fault ρ} {fault : Fault} (h : Served r) (hr : r = .error fault) :
    Served (.error fault : Except Fault β) := by
  intro program hfault
  cases hfault
  exact h program hr

theorem Sourced.served {r : Except Fault ρ} (h : Sourced r) : Served r :=
  fun _ hr => Bool.false_ne_true (h _ hr)

variable [Scalar α]

theorem Clip.sourced_sampleAt (clip : Clip α) (length : Nat) (place : α) :
    Sourced (clip.sampleAt length place) := by
  unfold sampleAt
  split
  · rename_i hlast
    exact (sourced_computed _).error hlast
  · repeat' split
    all_goals first | exact sourced_ok _ | exact sourced_error rfl

theorem Clip.sourced_resampleFrom (clip : Clip α) (ratio : α) (length : Nat) (found : List α)
    (indices : List Nat) : Sourced (clip.resampleFrom ratio length found indices) := by
  induction indices generalizing found with
  | nil => exact sourced_ok _
  | cons i rest ih =>
    unfold resampleFrom
    split
    · rename_i hplace
      exact (sourced_computed _).error hplace
    · split
      · rename_i hsample
        exact (clip.sourced_sampleAt _ _).error hsample
      · exact ih _

theorem Clip.sourced_resample (clip : Clip α) (ratio : α) : Sourced (clip.resample ratio) := by
  have h := clip.sourced_resampleFrom ratio (clip.size - 1) [] (List.range (clip.size - 1))
  simp only [resample]
  generalize clip.resampleFrom ratio (clip.size - 1) [] (List.range (clip.size - 1)) = result at h ⊢
  cases result with
  | ok out => exact sourced_ok _
  | error fault => exact h.error rfl

theorem Envelope.sourced_modulation (e : Envelope α) (ctx : Context α) :
    Sourced (e.modulation ctx) := by
  unfold modulation
  split
  · exact sourced_error rfl
  · split
    · rename_i hindex
      exact (sourced_computed _).error hindex
    · split
      · exact sourced_error rfl
      · split
        · rename_i hvalue
          exact (sourced_computed _).error hvalue
        · exact sourced_ok _

theorem Source.sourced_modulation (src : Source α) (ctx : Context α) :
    Sourced (src.modulation ctx) := by
  cases src with
  | waveform w => exact sourced_ok _
  | envelope e => exact e.sourced_modulation ctx
  | bank slot => exact sourced_ok _

theorem Instrument.sourced_modulate (ctx : Context α) (value : α) (modulators : List (Modulator α)) :
    Sourced (modulate ctx value modulators) := by
  induction modulators generalizing value with
  | nil => exact sourced_ok _
  | cons m rest ih =>
    unfold modulate
    split
    · rename_i hmodulation
      exact (m.source.sourced_modulation ctx).error hmodulation
    · exact ih _
    · exact ih _

theorem Instrument.sourced_shape (ctx : Context α) (value : α) (modulators : List (Modulator α)) :
    Sourced (shape ctx value modulators) := by
  unfold shape
  split
  · rename_i hvalue
    exact (sourced_modulate ctx value modulators).error hvalue
  · exact sourced_ok _

/-! ## Banks -/

namespace Bank

/-- What playing never changes of a bank. -/
def frame (b : Bank α) : List (Int × String) × Option Int := (b.files, b.cache.limit)

theorem sourced_intValue (ctx : Context α) (name : String) : Sourced (intValue ctx name) := by
  unfold intValue
  split
  · exact sourced_error rfl
  · exact sourced_computed _

/-- A bank that holds no clip and will never hold one. -/
structure Barren (b : Bank α) : Prop where
  entries_eq : b.cache.entries = []
  limit : ¬PitchCache.IsRoomy b.cache.limit

/-- What preparing a bank leaves behind. -/
structure PrimesQuietly (b : Bank α) (result : Except Fault Unit × Bank α × List Event) : Prop where
  sourced : Sourced result.1
  frame : result.2.1.frame = b.frame
  skips : Event.skips result.2.2 = []
  still : b.Barren → result.2.1 = b

omit [Scalar α] in
theorem Barren.put_eq {b : Bank α} (h : b.Barren) (pitch : Int) (clip : Clip α) :
    b.cache.put pitch clip = b.cache := by
  obtain ⟨hentries, hlimit⟩ := h
  obtain ⟨name, files, ⟨limit, entries⟩⟩ := b
  obtain rfl : entries = [] := hentries
  cases limit with
  | none => exact absurd PitchCache.isRoomy_none hlimit
  | some n =>
    have hn : n.toNat = 0 := by
      have hsmall : ¬1 ≤ n := mt PitchCache.isRoomy_some.mpr hlimit
      omega
    simp [PitchCache.put, PitchCache.without, PitchCache.evict, hn]

omit [Scalar α] in
theorem Barren.touch_eq {b : Bank α} (h : b.Barren) (pitch : Int) :
    b.cache.touch pitch = b.cache := by
  have hnone : b.cache.find? pitch = none := by
    rw [PitchCache.find?, h.entries_eq]
    rfl
  rw [PitchCache.touch, hnone]

omit [Scalar α] in
theorem primesQuietly_store (b : Bank α) (pitch : Int) (clip : Clip α) {trace : List Event}
    (h : Event.skips trace = []) : b.PrimesQuietly (b.store pitch clip trace) := by
  refine ⟨?_, rfl, h, fun hbarren => by rw [store, hbarren.put_eq]⟩
  unfold store
  split
  · exact sourced_ok ()
  · exact sourced_error rfl

theorem primesQuietly_primeIn (load : ClipLoader α) (b : Bank α) (ctx : Context α) :
    b.PrimesQuietly (b.primeIn load ctx) := by
  unfold primeIn
  split
  case h_1 hpitch => exact ⟨(sourced_intValue _ _).error hpitch, rfl, rfl, fun _ => rfl⟩
  case h_2 pitch _ =>
    unfold prime
    split
    case isTrue => exact ⟨sourced_ok _, rfl, rfl, fun _ => rfl⟩
    case isFalse =>
      split
      case h_1 path _ =>
        split
        · exact ⟨sourced_error rfl, rfl, rfl, fun _ => rfl⟩
        · exact primesQuietly_store b pitch _ rfl
      case h_2 =>
        -- a substitute is looked for
        simp only
        split
        case h_1 => exact ⟨sourced_ok _, rfl, rfl, fun _ => rfl⟩
        case h_2 =>
          split
          case h_1 hratio => exact ⟨(sourced_computed _).error hratio, rfl, rfl, fun _ => rfl⟩
          case h_2 =>
            split
            · exact ⟨sourced_error rfl, rfl, rfl, fun _ => rfl⟩
            · split
              case h_1 hresample =>
                exact ⟨(Clip.sourced_resample _ _).error hresample, rfl, rfl, fun _ => rfl⟩
              case h_2 => exact primesQuietly_store b pitch _ rfl

theorem sourced_sampleOf (clip : Clip α) (index : Int) : Sourced (sampleOf clip index) := by
  unfold sampleOf
  repeat' split
  all_goals first | exact sourced_ok _ | exact sourced_error rfl

theorem sourced_carrier (b : Bank α) (ctx : Context α) : Sourced (b.carrier ctx).1 := by
  unfold carrier
  split
  · rename_i hpitch
    exact (sourced_intValue _ _).error hpitch
  · split
    · exact sourced_ok _
    · split
      · rename_i hindex
        exact (sourced_intValue _ _).error hindex
      · split
        · exact sourced_ok _
        · rename_i hsample
          exact (sourced_sampleOf _ _).error hsample

theorem frame_carrier (b : Bank α) (ctx : Context α) : (b.carrier ctx).2.frame = b.frame := by
  rcases b.carrier_snd ctx with heq | ⟨pitch, heq⟩
  · rw [heq]
  · rw [heq, frame, PitchCache.limit_touch]
    rfl

theorem Barren.carrier_snd {b : Bank α} (h : b.Barren) (ctx : Context α) :
    (b.carrier ctx).2 = b := by
  rcases b.carrier_snd ctx with heq | ⟨pitch, heq⟩
  · exact heq
  · rw [heq, h.touch_eq]

end Bank

omit [Scalar α] in
/-- A bank that is put back with its frame keeps the frames of the rack. -/
theorem map_frame_set {rack : List (Bank α)} {slot : Nat} {b b' : Bank α}
    (hb : rack[slot]? = some b) (hframe : b'.frame = b.frame) :
    (rack.set slot b').map Bank.frame = rack.map Bank.frame := by
  obtain ⟨hlt, rfl⟩ := List.getElem?_eq_some_iff.mp hb
  have hlt' : slot < (rack.map Bank.frame).length := by rwa [List.length_map]
  have hself : (rack.map Bank.frame)[slot] = b'.frame := by rw [List.getElem_map, hframe]
  rw [List.map_set, ← hself, List.set_getElem_self]

omit [Scalar α] in
theorem set_eq_self {rack : List (Bank α)} {slot : Nat} {b b' : Bank α}
    (hb : rack[slot]? = some b) (h : b' = b) : rack.set slot b' = rack := by
  obtain ⟨hlt, rfl⟩ := List.getElem?_eq_some_iff.mp hb
  rw [h, List.set_getElem_self]

/-! ## Confined runs -/

/-- What a run comes to on a rack, whatever has been told before. -/
structure Comes (f : Stage α → Except Fault ρ × Stage α) (rack : List (Bank α))
    (r : Except Fault ρ) (rack' : List (Bank α)) (told : List Event) : Prop where
  run : ∀ trace, f ⟨rack, trace⟩ = (r, ⟨rack', trace ++ told⟩)
  frames : rack'.map Bank.frame = rack.map Bank.frame
  skips : Event.skips told = []
  sourced : Sourced r
  /-- banks that never hold a clip stay as they are -/
  still : (∀ b ∈ rack, b.Barren) → rack' = rack

/-- A run that sees only the banks. -/
def Confined (f : Stage α → Except Fault ρ × Stage α) : Prop :=
  ∀ rack, ∃ r rack' told, Comes f rack r rack' told

omit [Scalar α] in
theorem Comes.of_result {f : Stage α → Except Fault ρ × Stage α} {r : Except Fault ρ}
    (hr : Sourced r) {rack : List (Bank α)} (h : ∀ trace, f ⟨rack, trace⟩ = (r, ⟨rack, trace⟩)) :
    Comes f rack r rack [] :=
  ⟨fun trace => by rw [h, List.append_nil], rfl, rfl, hr, fun _ => rfl⟩

namespace Confined

omit [Scalar α]

variable {f : Stage α → Except Fault ρ × Stage α} {g : Stage α → Except Fault β × Stage α}

/-- One run after the other; a fault of the first one is the fault of both. -/
theorem andThen (hf : Confined f)
    (herror : ∀ fault st st', f st = (.error fault, st') → g st = (.error fault, st'))
    (hok : ∀ x, ∃ k, Confined k ∧ ∀ st st', f st = (.ok x, st') → g st = k st') :
    Confined g := by
  intro rack
  obtain ⟨r, rack₁, told₁, hcomes⟩ := hf rack
  cases r with
  | error fault =>
    exact ⟨.error fault, rack₁, told₁, fun trace => herror _ _ _ (hcomes.run trace),
      hcomes.frames, hcomes.skips, hcomes.sourced.error rfl, hcomes.still⟩
  | ok x =>
    obtain ⟨k, hk, hrun⟩ := hok x
    obtain ⟨r, rack₂, told₂, hcomes'⟩ := hk rack₁
    refine ⟨r, rack₂, told₁ ++ told₂, fun trace => ?_, hcomes'.frames.trans hcomes.frames, ?_,
      hcomes'.sourced, fun hbarren => ?_⟩
    · rw [hrun _ _ (hcomes.run trace), hcomes'.run, List.append_assoc]
    · rw [Event.skips_append, hcomes.skips, hcomes'.skips, List.append_nil]
    · have hstill := hcomes.still hbarren
      rw [← hstill] at hbarren
      exact (hcomes'.still hbarren).trans hstill

theorem const {r : Except Fault ρ} (hr : Sourced r) : Confined fun st : Stage α => (r, st) :=
  fun rack => ⟨r, rack, [], .of_result hr fun _ => rfl⟩

/-! ### What a confined run does on a stage -/

variable (h : Confined f) (st : Stage α)

include h

/-- On stages with the same banks it fails of the same fault, or comes to the same and
leaves the same banks. -/
theorem cases {st st' : Stage α} (hrack : st.rack = st'.rack) :
    (∃ fault st₁ st₁', f st = (.error fault, st₁) ∧ f st' = (.error fault, st₁')) ∨
      ∃ x st₁ st₁', f st = (.ok x, st₁) ∧ f st' = (.ok x, st₁') ∧ st₁.rack = st₁'.rack := by
  obtain ⟨rack, trace⟩ := st
  obtain ⟨rack', trace'⟩ := st'
  obtain rfl : rack = rack' := hrack
  obtain ⟨r, rack', told, hcomes⟩ := h rack
  cases r with
  | error fault => exact .inl ⟨fault, _, _, hcomes.run trace, hcomes.run trace'⟩
  | ok x => exact .inr ⟨x, _, _, hcomes.run trace, hcomes.run trace', rfl⟩

theorem frames : (f st).2.rack.map Bank.frame = st.rack.map Bank.frame := by
  obtain ⟨r, rack', told, hcomes⟩ := h st.rack
  have hrun : f st = _ := hcomes.run st.trace
  rw [hrun]
  exact hcomes.frames

theorem skips : Event.skips (f st).2.trace = Event.skips st.trace := by
  obtain ⟨r, rack', told, hcomes⟩ := h st.rack
  have hrun : f st = _ := hcomes.run st.trace
  rw [hrun, Event.skips_append, hcomes.skips, List.append_nil]

theorem sourced : Sourced (f st).1 := by
  obtain ⟨r, rack', told, hcomes⟩ := h st.rack
  have hrun : f st = _ := hcomes.run st.trace
  rw [hrun]
  exact hcomes.sourced

theorem served : Served (f st).1 := (h.sourced st).served

theorem still (hbarren : ∀ b ∈ st.rack, b.Barren) : (f st).2.rack = st.rack := by
  obtain ⟨r, rack', told, hcomes⟩ := h st.rack
  have hrun : f st = _ := hcomes.run st.trace
  rw [hrun]
  exact hcomes.still hbarren

end Confined

/-! ## Sources and instruments -/

theorem Source.confined_prime (load : ClipLoader α) (ctx : Context α) (src : Source α) :
    Confined fun st => src.prime load ctx st := by
  intro rack
  cases src with
  | waveform w => exact ⟨.ok (), rack, [], .of_result (sourced_ok _) fun _ => rfl⟩
  | envelope e => exact ⟨.ok (), rack, [], .of_result (sourced_ok _) fun _ => rfl⟩
  | bank slot =>
    cases hb : rack[slot]? with
    | none =>
      refine ⟨.ok (), rack, [], .of_result (sourced_ok _) fun trace => ?_⟩
      simp only [prime, hb]
    | some b =>
      obtain ⟨hsourced, hframe, hskips, hstill⟩ := Bank.primesQuietly_primeIn load b ctx
      refine ⟨(b.primeIn load ctx).1, rack.set slot (b.primeIn load ctx).2.1,
        (b.primeIn load ctx).2.2, fun trace => ?_, map_frame_set hb hframe, hskips, hsourced,
        fun hbarren => set_eq_self hb (hstill (hbarren b (List.mem_of_getElem? hb)))⟩
      simp only [prime, hb]
      rfl

theorem Source.confined_carrier (ctx : Context α) (src : Source α) :
    Confined fun st => src.carrier ctx st := by
  intro rack
  cases src with
  | waveform w => exact ⟨_, rack, [], .of_result (sourced_ok (w.carrier ctx)) fun _ => rfl⟩
  | envelope e => exact ⟨_, rack, [], .of_result (sourced_ok none) fun _ => rfl⟩
  | bank slot =>
    cases hb : rack[slot]? with
    | none =>
      refine ⟨_, rack, [], .of_result (sourced_ok none) fun trace => ?_⟩
      simp only [carrier, hb]
    | some b =>
      refine ⟨(b.carrier ctx).1, rack.set slot (b.carrier ctx).2, [], fun trace => ?_,
        map_frame_set hb (b.frame_carrier ctx), rfl, b.sourced_carrier ctx,
        fun hbarren => set_eq_self hb ((hbarren b (List.mem_of_getElem? hb)).carrier_snd ctx)⟩
      simp only [carrier, hb, List.append_nil]
      rfl

theorem Instrument.confined_sample (i : Instrument α) (ctx : Context α) :
    Confined fun st => i.sample ctx st := by
  refine (i.carrier.confined_carrier ctx).andThen (fun fault st st' h => ?_) (fun value? => ?_)
  · simp only [sample, h]
  · cases value? with
    | none => exact ⟨_, .const (sourced_ok none), fun st st' h => by simp only [sample, h]⟩
    | some value =>
      exact ⟨_, .const (sourced_shape ctx value i.modulators),
        fun st st' h => by simp only [sample, h]⟩

end Orchestrion

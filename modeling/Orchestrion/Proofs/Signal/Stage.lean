import Orchestrion.Proofs.Signal.Coherence
import Orchestrion.Signal.Source

set_option autoImplicit false

/-!
# Stages that sound alike

Two stages whose banks have the same files sound alike, however their caches are
filled, as long as each cache is coherent and may hold a clip.  A source that is
prepared and played on both of them comes to the same results, the faults
included, and leaves two stages that sound alike again.
-/

namespace Orchestrion

variable {α ρ : Type}

/-! ## Two runs -/

/-- Two runs that have come to the same result, on stages with a property. -/
structure Agree (P : Stage α → Prop) (x y : ρ × Stage α) : Prop where
  result : x.1 = y.1
  left : P x.2
  right : P y.2

namespace Agree

variable {P Q : Stage α → Prop} {st st' : Stage α}

theorem mono {x y : ρ × Stage α} (h : Agree P x y) (himp : ∀ st, P st → Q st) : Agree Q x y :=
  ⟨h.result, himp _ h.left, himp _ h.right⟩

/-- Runs that agree have both failed, of the same fault, or both succeeded, with
the same value. -/
theorem cases {x y : Except Fault ρ × Stage α} (h : Agree P x y) :
    (∃ fault st st', x = (.error fault, st) ∧ y = (.error fault, st') ∧ P st ∧ P st') ∨
      ∃ r st st', x = (.ok r, st) ∧ y = (.ok r, st') ∧ P st ∧ P st' := by
  obtain ⟨x, st⟩ := x
  obtain ⟨y, st'⟩ := y
  obtain ⟨hresult, hst, hst'⟩ := h
  cases hresult
  cases x with
  | error fault => exact .inl ⟨fault, st, st', rfl, rfl, hst, hst'⟩
  | ok r => exact .inr ⟨r, st, st', rfl, rfl, hst, hst'⟩

end Agree

/-! ## Settled stages -/

variable [Scalar α]

/-- A bank whose cache is coherent and may hold a clip. -/
structure Bank.Settled (load : ClipLoader α) (b : Bank α) : Prop where
  coherent : b.Coherent load
  roomy : PitchCache.IsRoomy b.cache.limit

/-- A call of a bank keeps it settled, with the same files. -/
theorem Bank.Settled.after {load : ClipLoader α} {b : Bank α} (h : b.Settled load)
    (call : Bank.Call α) :
    (b.after load call).files = b.files ∧ (b.after load call).Settled load := by
  obtain ⟨hfiles, hlimit, hcoherent⟩ := Bank.after_invariant h.coherent call
  refine ⟨hfiles, hcoherent, ?_⟩
  rw [hlimit]
  exact h.roomy

/-- A stage on which the banks have certain files, and are settled. -/
structure Stage.Settled (load : ClipLoader α) (files : List (List (Int × String)))
    (st : Stage α) : Prop where
  files_eq : st.rack.map Bank.files = files
  settled : ∀ b ∈ st.rack, b.Settled load

namespace Stage.Settled

variable {load : ClipLoader α} {files : List (List (Int × String))} {st st' : Stage α}
  {slot : Nat}

theorem of_rack (h : st.Settled load files) (hrack : st'.rack = st.rack) :
    st'.Settled load files := by
  refine ⟨?_, ?_⟩
  · rw [hrack]
    exact h.files_eq
  · rw [hrack]
    exact h.settled

/-- What has been told does not matter. -/
theorem tell (h : st.Settled load files) (trace : List Event) :
    (st.tell trace).Settled load files := ⟨h.files_eq, h.settled⟩

/-- A bank that is put back with its files, and settled, keeps the stage settled. -/
theorem setBank {b b' : Bank α} (h : st.Settled load files) (hb : st.rack[slot]? = some b)
    (hfiles : b'.files = b.files) (hb' : b'.Settled load) :
    (st.setBank slot b').Settled load files := by
  refine ⟨?_, ?_⟩
  · rw [← h.files_eq]
    obtain ⟨hlt, rfl⟩ := List.getElem?_eq_some_iff.mp hb
    have hlt' : slot < (st.rack.map Bank.files).length := by simpa using hlt
    have hself : (st.rack.map Bank.files)[slot] = b'.files := by
      rw [List.getElem_map, hfiles]
    rw [Stage.setBank, List.map_set, ← hself, List.set_getElem_self]
  · intro c hc
    rcases List.mem_or_eq_of_mem_set hc with hmem | rfl
    · exact h.settled c hmem
    · exact hb'

/-- Settled stages with the same files have the same places, and at each one
banks with the same files. -/
theorem cases (h : st.Settled load files) (h' : st'.Settled load files) (slot : Nat) :
    (st.rack[slot]? = none ∧ st'.rack[slot]? = none) ∨
      ∃ b b', st.rack[slot]? = some b ∧ st'.rack[slot]? = some b' ∧ b.files = b'.files ∧
        b.Settled load ∧ b'.Settled load := by
  have hslot : st.rack[slot]?.map Bank.files = st'.rack[slot]?.map Bank.files := by
    rw [← List.getElem?_map, ← List.getElem?_map, h.files_eq, h'.files_eq]
  cases hb : st.rack[slot]? with
  | none =>
    rw [hb] at hslot
    exact .inl ⟨rfl, Option.map_eq_none_iff.mp hslot.symm⟩
  | some b =>
    rw [hb] at hslot
    obtain ⟨b', hb', hfiles⟩ := Option.map_eq_some_iff.mp hslot.symm
    exact .inr ⟨b, b', rfl, hb', hfiles.symm, h.settled b (List.mem_of_getElem? hb),
      h'.settled b' (List.mem_of_getElem? hb')⟩

end Stage.Settled

/-! ## Preparing a source -/

/-- A source that finds the clip of a pitch, if it plays clips at all.  The pitch
is what a context gives for it. -/
def Source.Prepared (load : ClipLoader α) (pitch : Except Fault Int) (st : Stage α) :
    Source α → Prop
  | .waveform _ => True
  | .envelope _ => True
  | .bank slot => ∀ b ∈ st.rack[slot]?, ∀ p, pitch = .ok p →
      b.clipOf load p = .ok (b.cache.find? p)

/-- A settled stage on which a source has been prepared. -/
structure Stage.Ready (load : ClipLoader α) (files : List (List (Int × String)))
    (pitch : Except Fault Int) (src : Source α) (st : Stage α) : Prop where
  settled : st.Settled load files
  prepared : src.Prepared load pitch st

variable {load : ClipLoader α} {files : List (List (Int × String))} {st st' : Stage α}

/-- Banks with the same files that are prepared come to the same result. -/
theorem Bank.primeIn_fst {b b' : Bank α} (hfiles : b.files = b'.files) (h : b.Settled load)
    (h' : b'.Settled load) (ctx : Context α) :
    (b.primeIn load ctx).1 = (b'.primeIn load ctx).1 := by
  unfold Bank.primeIn
  cases Bank.intValue ctx Context.pitchName with
  | error fault => rfl
  | ok pitch =>
    have hclip : b.clipOf load pitch = b'.clipOf load pitch := Bank.clipOf_congr hfiles pitch
    simp only
    rcases Bank.prime_result h.coherent h.roomy pitch with
      ⟨fault, hfault, hresult⟩ | ⟨clip?, hfound, hresult, _⟩ <;>
    rcases Bank.prime_result h'.coherent h'.roomy pitch with
      ⟨fault', hfault', hresult'⟩ | ⟨clip?', hfound', hresult', _⟩
    · rw [hclip, hfault'] at hfault
      cases hfault
      rw [hresult, hresult']
    · rw [hclip, hfound'] at hfault
      cases hfault
    · rw [hclip, hfault'] at hfound
      cases hfound
    · rw [hresult, hresult']

/-- A source that is prepared on stages that sound alike comes to the same
result. -/
theorem Source.prime_agree (hst : st.Settled load files) (hst' : st'.Settled load files)
    (src : Source α) (ctx : Context α) :
    Agree (Stage.Settled load files) (src.prime load ctx st) (src.prime load ctx st') := by
  cases src with
  | waveform w => exact ⟨rfl, hst, hst'⟩
  | envelope e => exact ⟨rfl, hst, hst'⟩
  | bank slot =>
    unfold Source.prime
    rcases hst.cases hst' slot with ⟨hb, hb'⟩ | ⟨b, b', hb, hb', hfiles, h, h'⟩
    · simp only [hb, hb']
      exact ⟨rfl, hst, hst'⟩
    · simp only [hb, hb']
      obtain ⟨hafter, hsettled⟩ := h.after (.prime ctx)
      obtain ⟨hafter', hsettled'⟩ := h'.after (.prime ctx)
      exact ⟨Bank.primeIn_fst hfiles h h' ctx, (hst.setBank hb hafter hsettled).tell _,
        (hst'.setBank hb' hafter' hsettled').tell _⟩

/-- After its preparation a source is prepared. -/
theorem Source.ready_of_prime {src : Source α} {ctx : Context α} {st₁ : Stage α}
    (hst : st.Settled load files) (h : src.prime load ctx st = (.ok (), st₁)) :
    st₁.Ready load files (Bank.intValue ctx Context.pitchName) src := by
  have hagree := Source.prime_agree hst hst src ctx
  rw [h] at hagree
  refine ⟨hagree.left, ?_⟩
  cases src with
  | waveform w => trivial
  | envelope e => trivial
  | bank slot =>
    intro c hc p hp
    unfold Source.prime at h
    cases hb : st.rack[slot]? with
    | none =>
      simp only [hb] at h
      cases h
      rw [hb] at hc
      cases hc
    | some b =>
      have hlt : slot < st.rack.length := (List.getElem?_eq_some_iff.mp hb).1
      have hsettled : b.Settled load := hst.settled b (List.mem_of_getElem? hb)
      simp only [hb, Bank.primeIn, hp] at h
      obtain ⟨hok, rfl⟩ := Prod.mk.inj h
      have hbank : (b.prime load p).2.1 = c := by
        simpa [Stage.tell, Stage.setBank, List.getElem?_set_self hlt] using hc
      subst hbank
      obtain ⟨hfiles, _, _⟩ := Bank.prime_invariant hsettled.coherent p
      rw [Bank.clipOf_congr hfiles]
      rcases Bank.prime_result hsettled.coherent hsettled.roomy p with
        ⟨fault, _, hfault⟩ | ⟨clip?, hclip, _, hfind⟩
      · rw [hfault] at hok
        cases hok
      · rw [hclip, hfind]

/-! ## Playing a source -/

/-- Playing finds afterwards what it found before. -/
theorem Bank.find?_carrier (b : Bank α) (ctx : Context α) (pitch : Int) :
    (b.carrier ctx).2.cache.find? pitch = b.cache.find? pitch := by
  rcases b.carrier_snd ctx with heq | ⟨p, heq⟩
  · rw [heq]
  · rw [heq]
    exact PitchCache.find?_touch _ _ _

/-- A stage stays ready when a bank of it is played. -/
theorem Stage.Ready.setBank_carrier {pitch : Except Fault Int} {slot : Nat} {b : Bank α}
    (h : st.Ready load files pitch (.bank slot)) (hb : st.rack[slot]? = some b)
    (ctx : Context α) :
    (st.setBank slot (b.carrier ctx).2).Ready load files pitch (.bank slot) := by
  have hlt : slot < st.rack.length := (List.getElem?_eq_some_iff.mp hb).1
  have hsettled : b.Settled load := h.settled.settled b (List.mem_of_getElem? hb)
  obtain ⟨hfiles, hafter⟩ : (b.carrier ctx).2.files = b.files ∧ (b.carrier ctx).2.Settled load :=
    hsettled.after (.carrier ctx)
  refine ⟨h.settled.setBank hb hfiles hafter, ?_⟩
  intro c hc p hp
  have hbank : (b.carrier ctx).2 = c := by
    simpa [Stage.setBank, List.getElem?_set_self hlt] using hc
  subst hbank
  rw [Bank.clipOf_congr hfiles, Bank.find?_carrier]
  exact h.prepared b hb p hp

/-- A source that has been prepared for the pitch of a context and is played in
it on stages that sound alike comes to the same value. -/
theorem Source.carrier_agree {src : Source α} {ctx : Context α}
    (hst : st.Ready load files (Bank.intValue ctx Context.pitchName) src)
    (hst' : st'.Ready load files (Bank.intValue ctx Context.pitchName) src) :
    Agree (Stage.Ready load files (Bank.intValue ctx Context.pitchName) src)
      (src.carrier ctx st) (src.carrier ctx st') := by
  cases src with
  | waveform w => exact ⟨rfl, hst, hst'⟩
  | envelope e => exact ⟨rfl, hst, hst'⟩
  | bank slot =>
    unfold Source.carrier
    rcases hst.settled.cases hst'.settled slot with ⟨hb, hb'⟩ | ⟨b, b', hb, hb', hfiles, _, _⟩
    · simp only [hb, hb']
      exact ⟨rfl, hst, hst'⟩
    · simp only [hb, hb']
      refine ⟨?_, hst.setBank_carrier hb ctx, hst'.setBank_carrier hb' ctx⟩
      simp only
      rw [Bank.carrier_fst, Bank.carrier_fst]
      cases hp : Bank.intValue ctx Context.pitchName with
      | error fault => rfl
      | ok p =>
        -- both caches hold what the files give for the pitch
        have hfound := hst.prepared b hb p hp
        rw [Bank.clipOf_congr hfiles, hst'.prepared b' hb' p hp] at hfound
        simp only [Except.ok.inj hfound]

end Orchestrion

import Orchestrion.Proofs.Formula.Substitution
import Orchestrion.Proofs.Mix.Leniency

set_option autoImplicit false

/-!
# Formulas with an unknown name

The context of every sample has the same six names.  A formula in which any other name
occurs has no value in any of them, wherever the name stands and whatever else is wrong
with the formula.  A waveform takes that for silence: as a carrier it makes notes of
zeros, and as a modulator it may as well not be there.

What remains to go wrong with such a note are its numbers.  The contexts themselves have
to be computed, although nothing reads them.
-/

namespace Orchestrion

variable {α : Type} [Scalar α]

/-! ## Names of a context -/

namespace Context

theorem keys_of_ofSample {sample duration pitch rate : Int} {frequency : α} {ctx : Context α}
    (h : ofSample sample duration pitch frequency rate = .ok ctx) :
    ctx.map Prod.fst = sampleNames := by
  obtain ⟨_, _, _, _, _, _, _, _, _, _, rfl⟩ := exists_of_ofSample h
  rfl

theorem get?_eq_none_of_ofSample {sample duration pitch rate : Int} {frequency : α}
    {ctx : Context α} (h : ofSample sample duration pitch frequency rate = .ok ctx) {x : String}
    (hx : x ∉ sampleNames) : ctx.get? x = none := by
  rw [← keys_of_ofSample h] at hx
  refine List.lookup_eq_none_iff.mpr fun entry hentry => bne_iff_ne.mpr ?_
  rintro rfl
  exact hx (List.mem_map_of_mem hentry)

end Context

/-! ## Formulas -/

namespace Formula

/-- Whether a name occurs in a formula that no sample's context has. -/
def Expr.HasUnknown (e : Expr) : Prop := ∃ x, e.mentions x = true ∧ x ∉ Context.sampleNames

theorem Expr.replace_name (e : Expr) (x : String) : e.replace x (.name x) = e := by
  induction e with
  | number value => rfl
  | name ident =>
    by_cases hident : ident = x
    · simp [Expr.replace, hident]
    · simp [Expr.replace, hident]
  | unary op operand ih => rw [Expr.replace, ih]
  | binary op lhs rhs ihl ihr => rw [Expr.replace, ihl, ihr]

/-- A name without a value leaves none to a formula in which it occurs. -/
theorem Expr.HasUnknown.exists_fault {e : Expr} (h : e.HasUnknown)
    {sample duration pitch rate : Int} {frequency : α} {ctx : Context α}
    (hctx : Context.ofSample sample duration pitch frequency rate = .ok ctx) :
    ∃ fault, e.eval ctx = .error fault := by
  obtain ⟨x, hmentions, hx⟩ := h
  have hname : (Expr.name x).eval ctx = .error .incomplete := by
    simp only [Expr.eval, Context.get?_eq_none_of_ofSample hctx hx]
  obtain ⟨fault, hfault⟩ := Expr.eval_replace_of_error e hname hmentions
  rw [Expr.replace_name] at hfault
  exact ⟨fault, hfault⟩

end Formula

/-! ## Waveforms and modulators -/

section

variable {sample duration pitch rate : Int} {frequency : α} {ctx : Context α}
  (hctx : Context.ofSample sample duration pitch frequency rate = .ok ctx)

include hctx

theorem Waveform.carrier_eq_none {w : Waveform} (h : w.formula.HasUnknown) :
    w.carrier ctx = none := by
  obtain ⟨fault, hfault⟩ := h.exists_fault hctx
  simp only [Waveform.carrier, hfault]

theorem Waveform.modulation_eq_none {w : Waveform} (h : w.formula.HasUnknown) :
    w.modulation ctx = none := by
  rw [Waveform.modulation, Waveform.carrier_eq_none hctx h]
  rfl

end

/-- Whether a modulator is a waveform whose formula has an unknown name. -/
def Modulator.IsMute (m : Modulator α) : Prop :=
  ∃ w : Waveform, m.source = .waveform w ∧ w.formula.HasUnknown

namespace Instrument

/-- The instrument with some of its modulators only. -/
def keeping (i : Instrument α) (keep : Modulator α → Bool) : Instrument α :=
  { i with modulators := i.modulators.filter keep }

variable {i : Instrument α} {keep : Modulator α → Bool} {ctx : Context α}

/-- Modulators without a value may be left out, wherever they stand among the others. -/
theorem modulate_filter {modulators : List (Modulator α)}
    (h : ∀ m ∈ modulators, keep m = false → m.source.modulation ctx = .ok none) (value : α) :
    modulate ctx value (modulators.filter keep) = modulate ctx value modulators := by
  induction modulators generalizing value with
  | nil => rfl
  | cons m rest ih =>
    obtain ⟨hm, hrest⟩ := List.forall_mem_cons.mp h
    cases hkeep : keep m with
    | false =>
      rw [List.filter_cons_of_neg (Bool.eq_false_iff.mp hkeep), ih hrest]
      simp only [modulate, hm hkeep]
    | true =>
      rw [List.filter_cons_of_pos hkeep]
      simp only [modulate, ih hrest]

theorem sample_keeping {index duration pitch rate : Int} {frequency : α}
    (hctx : Context.ofSample index duration pitch frequency rate = .ok ctx)
    (h : ∀ m ∈ i.modulators, keep m = false → m.IsMute) (st : Stage α) :
    (i.keeping keep).sample ctx st = i.sample ctx st := by
  have hnone : ∀ m ∈ i.modulators, keep m = false → m.source.modulation ctx = .ok none := by
    intro m hm hkeep
    obtain ⟨w, hsource, hunknown⟩ := h m hm hkeep
    rw [hsource, Source.modulation, Waveform.modulation_eq_none hctx hunknown]
  unfold sample
  simp only [keeping, shape, modulate_filter hnone]

/-- A waveform has nothing to prepare. -/
theorem prime_of_waveform {w : Waveform} (hcarrier : i.carrier = .waveform w)
    (load : ClipLoader α) (ctx : Context α) (st : Stage α) :
    i.prime load ctx st = (.ok (), st) := by
  rw [prime, hcarrier]
  rfl

end Instrument

/-! ## Notes -/

namespace Session

variable {s : Session α} {i : Instrument α} {n : Note} {st : Stage α} {frequency : α}

/-- Whether a note can be prepared, and each of its samples has a context. -/
structure HasContexts (s : Session α) (n : Note) : Prop where
  pitch : ∃ ctx : Context α, Context.ofPitch n.pitch = .ok ctx
  samples : ∃ frequency : α, n.frequency = .ok frequency ∧ ∀ index < n.duration.toNat,
    ∃ ctx, Context.ofSample index n.duration n.pitch frequency s.sampleRate = .ok ctx

/-- Leaving mute modulators out changes nothing of a note, be it rendered or not. -/
theorem renderNote_keeping {keep : Modulator α → Bool}
    (h : ∀ m ∈ i.modulators, keep m = false → m.IsMute) :
    s.renderNote (i.keeping keep) n st = s.renderNote i n st := by
  have hsample (frequency : α) (index : Nat) (st : Stage α) :
      s.sampleAt (i.keeping keep) n frequency st index = s.sampleAt i n frequency st index := by
    unfold sampleAt
    cases hctx : Context.ofSample index n.duration n.pitch frequency s.sampleRate with
    | error fault => rfl
    | ok ctx => simp only [computed, Instrument.sample_keeping hctx h]
  have hprime (ctx : Context α) :
      (i.keeping keep).prime s.load ctx st = i.prime s.load ctx st := rfl
  simp only [renderNote, hprime, samplesFrom_of_sampleAt (hsample _)]

section

variable {w : Waveform} (hcarrier : i.carrier = .waveform w) (h : w.formula.HasUnknown)

include hcarrier h

theorem sampleAt_silent {index : Nat} {ctx : Context α}
    (hctx : Context.ofSample index n.duration n.pitch frequency s.sampleRate = .ok ctx) :
    s.sampleAt i n frequency st index = (.ok 0.0, st) := by
  simp only [sampleAt, hctx, computed, Instrument.sample, hcarrier, Source.carrier,
    Waveform.carrier_eq_none hctx h]

/-- On a silent carrier a note is as many zeros as it is long. -/
theorem renderNote_silent (hcontexts : s.HasContexts n) :
    s.renderNote i n st = (.ok (List.replicate n.duration.toNat 0.0), st) := by
  obtain ⟨⟨_, hpitch⟩, frequency, hfrequency, hsamples⟩ := hcontexts
  have hsample : ∀ index ∈ List.range n.duration.toNat,
      s.sampleAt i n frequency st index = (.ok 0.0, st) := by
    intro index hindex
    obtain ⟨ctx, hctx⟩ := hsamples index (List.mem_range.mp hindex)
    exact sampleAt_silent hcarrier h hctx
  simp only [renderNote, hpitch, hfrequency, computed, Instrument.prime_of_waveform hcarrier]
  rw [samplesFrom_constant hsample, List.reverse_nil, List.nil_append, List.length_range]

/-- A sample without a context ends the note. -/
theorem exists_samplesFrom_fault {found : List α} {indices : List Nat}
    (hlack : ∃ index ∈ indices, ∀ ctx,
      Context.ofSample index n.duration n.pitch frequency s.sampleRate ≠ .ok ctx) :
    ∃ fault, s.samplesFrom i n frequency st found indices = (.error (.arithmetic fault), st) := by
  induction indices generalizing found with
  | nil =>
    obtain ⟨_, hnil, _⟩ := hlack
    exact absurd hnil List.not_mem_nil
  | cons first rest ih =>
    cases hctx : Context.ofSample first n.duration n.pitch frequency s.sampleRate with
    | error fault => exact ⟨fault, by simp only [samplesFrom, sampleAt, hctx, computed]⟩
    | ok ctx =>
      simp only [samplesFrom, sampleAt_silent hcarrier h hctx]
      obtain ⟨index, hindex, hnone⟩ := hlack
      rcases List.mem_cons.mp hindex with rfl | hindex
      · exact absurd hctx (hnone ctx)
      · exact ih ⟨index, hindex, hnone⟩

/-- Only a number that cannot be computed keeps a silent carrier from its zeros. -/
theorem exists_renderNote_fault (hcontexts : ¬s.HasContexts n) :
    ∃ fault, s.renderNote i n st = (.error (.arithmetic fault), st) := by
  cases hpitch : Context.ofPitch (α := α) n.pitch with
  | error fault => exact ⟨fault, by simp only [renderNote, hpitch, computed]⟩
  | ok ctx =>
    have hprime := Instrument.prime_of_waveform hcarrier s.load ctx st
    cases hfrequency : n.frequency (α := α) with
    | error fault => exact ⟨fault, by simp only [renderNote, hpitch, hprime, hfrequency, computed]⟩
    | ok frequency =>
      simp only [renderNote, hpitch, hprime, hfrequency, computed]
      refine exists_samplesFrom_fault hcarrier h ?_
      by_contra hall
      push Not at hall
      exact hcontexts ⟨⟨ctx, hpitch⟩, frequency, hfrequency, fun index hindex =>
        hall index (List.mem_range.mpr hindex)⟩

end

/-- **An unknown name is silence.**  Let a name occur in the formula of a waveform, at any
place, that no sample's context has.  The waveform has no value in such a context, as a
carrier or as a modulator.  As a carrier it makes every note as many zeros as the note is
long, once the note's contexts are computed, and if they cannot be computed that is the
fault of the note; nothing else happens on the stage.  And such waveforms can be left out
of the modulators of any instrument, some or all of them: no sample of it changes, and no
note. -/
theorem unknown_is_silence {w : Waveform} (h : w.formula.HasUnknown) :
    (∀ (index duration pitch rate : Int) (frequency : α) (ctx : Context α),
      Context.ofSample index duration pitch frequency rate = .ok ctx →
        w.carrier ctx = none ∧ w.modulation ctx = none) ∧
    (∀ (s : Session α) (i : Instrument α) (n : Note) (st : Stage α), i.carrier = .waveform w →
      (s.HasContexts n →
        s.renderNote i n st = (.ok (List.replicate n.duration.toNat 0.0), st)) ∧
      (¬s.HasContexts n → ∃ fault, s.renderNote i n st = (.error (.arithmetic fault), st))) ∧
    ∀ (i : Instrument α) (keep : Modulator α → Bool),
      (∀ m ∈ i.modulators, keep m = false → m.IsMute) →
        (∀ (index duration pitch rate : Int) (frequency : α) (ctx : Context α) (st : Stage α),
          Context.ofSample index duration pitch frequency rate = .ok ctx →
            (i.keeping keep).sample ctx st = i.sample ctx st) ∧
        ∀ (s : Session α) (n : Note) (st : Stage α),
          s.renderNote (i.keeping keep) n st = s.renderNote i n st := by
  refine ⟨?_, ?_, ?_⟩
  · intro index duration pitch rate frequency ctx hctx
    exact ⟨Waveform.carrier_eq_none hctx h, Waveform.modulation_eq_none hctx h⟩
  · intro s i n st hcarrier
    exact ⟨renderNote_silent hcarrier h, exists_renderNote_fault hcarrier h⟩
  · intro i keep hmute
    refine ⟨?_, fun s n st => renderNote_keeping hmute⟩
    intro index duration pitch rate frequency ctx st hctx
    exact Instrument.sample_keeping hctx hmute st

/-! ## Contexts that can be computed -/

/-- On doubles a note has its contexts when its frequency is a number and its integers, with
the sample rate, are not beyond all doubles. -/
theorem hasContexts_of_frequency {s : Session Float} {n : Note} {frequency : Float}
    (hfrequency : n.frequency = .ok frequency) (hpitch : |n.pitch| ≤ 2 ^ 1023)
    (hduration : |n.duration| ≤ 2 ^ 1023) (hrate : 1 ≤ s.sampleRate ∧ s.sampleRate ≤ 2 ^ 1023) :
    s.HasContexts n := by
  obtain ⟨pitch, hp, -⟩ := Binary64.exists_ofInt_of_abs_le hpitch
  obtain ⟨duration, hd, -⟩ := Binary64.exists_ofInt_of_abs_le hduration
  obtain ⟨rate, hr, hpos⟩ := Binary64.exists_ofInt_of_abs_le
    ((abs_of_nonneg (zero_le_one.trans hrate.1)).trans_le hrate.2)
  refine ⟨⟨_, by rw [Context.ofPitch, hp]; rfl⟩, frequency, hfrequency, fun index hindex => ?_⟩
  have hle : |(index : Int)| ≤ 2 ^ 1023 := by
    refine le_trans ?_ hduration
    rw [abs_of_nonneg (Int.natCast_nonneg index)]
    exact le_trans (by omega) (le_abs_self n.duration)
  obtain ⟨sample, hs, -⟩ := Binary64.exists_ofInt_of_abs_le hle
  have hquotient (a : Float) : Scalar.quotient a rate = .ok (a / rate) := by
    rw [Scalar.quotient, hpos hrate.1]
    rfl
  rw [Context.ofSample, hr, hd, hs, hp]
  simp only [bind, Except.bind, hquotient]
  exact ⟨_, rfl⟩

section

attribute [local instance] Scalar.real

theorem hasContexts_steady (n : Note) : (steady ℝ).HasContexts n :=
  ⟨⟨_, rfl⟩, _, rfl, fun index _ => exists_ofSample_steady n _ index⟩

/-- A division by zero stands before the name `q`, which no context has.  The formula alone
is silent, also on doubles if only the frequency of the note is a number, and on a steady tone
it makes no difference. -/
theorem unknown_is_silence_steady :
    let e : Formula.Expr := .binary .add (.binary .div (.name "x") (.number ⟨0, 0⟩))
      (.unary .sin (.binary .mul (.name "q") (.number ⟨2, 0⟩)))
    let w : Waveform := ⟨.text "w", "x / 0 + sin(q * 2)", e⟩
    let n : Note := ⟨0, 0, 0, 3, 69, 64⟩
    Waveform.ofEquation (.text "w") "x / 0 + sin(q * 2)" = .ok w ∧ w.formula.HasUnknown ∧
      (∀ st, (steady ℝ).renderNote ⟨.ofText "i", 0, false, .waveform w, []⟩ n st =
        (.ok [0, 0, 0], st)) ∧
      (∀ (s : Session Float) (frequency : Float) st, n.frequency = .ok frequency →
        1 ≤ s.sampleRate ∧ s.sampleRate ≤ 2 ^ 1023 →
        s.renderNote ⟨.ofText "i", 0, false, .waveform w, []⟩ n st = (.ok [0.0, 0.0, 0.0], st)) ∧
      ∀ st, (steady ℝ).renderNote
          ⟨.ofText "i", 0, false, (steadyTone ℝ).carrier, [⟨.waveform w, 1⟩]⟩ n st =
        (.ok [2⁻¹, 2⁻¹, 2⁻¹], st) := by
  intro e w n
  have hparse : Waveform.ofEquation (.text "w") "x / 0 + sin(q * 2)" = .ok w := by cbv
  have hunknown : w.formula.HasUnknown := ⟨"q", by decide, by decide⟩
  obtain ⟨_, hnotes, hleft⟩ := unknown_is_silence (α := ℝ) hunknown
  refine ⟨hparse, hunknown, fun st => ?_, fun s frequency st hfrequency hrate => ?_, fun st => ?_⟩
  · have hzero : (0.0 : ℝ) = 0 := by norm_num
    rw [(hnotes (steady ℝ) _ n st rfl).1 (hasContexts_steady n), hzero]
    rfl
  · obtain ⟨_, hnotes, _⟩ := unknown_is_silence (α := Float) hunknown
    have hlarge : (2 : Int) ^ 7 ≤ 2 ^ 1023 := pow_le_pow_right₀ (by decide) (by decide)
    have hpitch : |n.pitch| ≤ 2 ^ 7 := by decide
    have hduration : |n.duration| ≤ 2 ^ 7 := by decide
    have hcontexts : s.HasContexts n :=
      hasContexts_of_frequency hfrequency (hpitch.trans hlarge) (hduration.trans hlarge) hrate
    exact (hnotes s _ n st rfl).1 hcontexts
  · obtain ⟨_, hrender⟩ :=
      hleft ⟨.ofText "i", 0, false, (steadyTone ℝ).carrier, [⟨.waveform w, 1⟩]⟩ (fun _ => false)
        fun m hm _ => ⟨w, by rw [List.mem_singleton.mp hm], hunknown⟩
    rw [← hrender]
    exact renderNote_steady n st

end

/-- At a sample rate beyond the range of doubles a note on an unknown name is no silence: it
cannot be rendered at all. -/
theorem unknown_at_overflow :
    let w : Waveform := ⟨.text "w", "q", .name "q"⟩
    let i : Instrument Float := ⟨.ofText "i", 0, false, .waveform w, []⟩
    Waveform.ofEquation (.text "w") "q" = .ok w ∧ w.formula.HasUnknown ∧
      1 ≤ tooFast.sampleRate ∧
      (tooFast.renderNote i ⟨0, 0, 0, 1, 60, 100⟩ (.ofRack [])).1 ≠ .ok [0.0] := by
  intro w i
  refine ⟨by cbv, ⟨"q", by decide, by decide⟩, one_le_pow₀ (by decide), ?_⟩
  have hinfinite : (Float.ofInt (10 ^ 309)).isInf = true := by decide +kernel
  have hrate : Scalar.ofInt (α := Float) (10 ^ 309) = .error .overflow := if_pos hinfinite
  exact renderNote_of_rate (s := tooFast) hrate (by decide) i (.ofRack []) [0.0]

end Session

end Orchestrion

import Orchestrion.Signal.Bank

set_option autoImplicit false

/-!
# The pitch in the contexts of a note

A note is prepared in one context and played in others.  Whoever asks them for
the pitch gets the same answer.
-/

namespace Orchestrion

/-- What a step that has succeeded went through. -/
theorem exists_of_bind_eq_ok {ε β γ : Type} {x : Except ε β} {f : β → Except ε γ} {r : γ}
    (h : x >>= f = .ok r) : ∃ b, x = .ok b ∧ f b = .ok r := by
  cases x with
  | error fault => cases h
  | ok b => exact ⟨b, rfl, h⟩

/-- What a step has made of the result of another. -/
theorem exists_of_map_eq_ok {ε β γ : Type} {x : Except ε β} {f : β → γ} {r : γ}
    (h : x.map f = .ok r) : ∃ b, x = .ok b ∧ f b = r := by
  cases x with
  | error fault => cases h
  | ok b => exact ⟨b, rfl, Except.ok.inj h⟩

/-- What has been computed without a fault is what the step gave. -/
theorem eq_ok_of_computed {β : Type} {x : Except ArithFault β} {b : β}
    (h : computed x = .ok b) : x = .ok b := by
  cases x with
  | error fault => cases h
  | ok b' =>
    cases h
    rfl

namespace Context

variable {α : Type} [Scalar α]

theorem get?_pitchName_of_ofPitch {pitch : Int} {ctx : Context α}
    (h : ofPitch pitch = .ok ctx) :
    ∃ x : α, Scalar.ofInt pitch = .ok x ∧ ctx.get? pitchName = some x := by
  obtain ⟨x, hx, h⟩ := exists_of_bind_eq_ok h
  cases h
  exact ⟨x, hx, rfl⟩

/-- The context of a sample has the numbers of the note under their names. -/
theorem exists_of_ofSample {sample duration pitch rate : Int} {frequency : α} {ctx : Context α}
    (h : ofSample sample duration pitch frequency rate = .ok ctx) :
    ∃ d s t r p x : α, Scalar.ofInt duration = .ok d ∧ Scalar.ofInt sample = .ok s ∧
      Scalar.ofInt rate = .ok r ∧ Scalar.ofInt pitch = .ok p ∧
      ctx = [(durationName, d), (sampleName, s), (timeName, t), (rateName, r), (pitchName, p),
        (phaseName, x)] := by
  obtain ⟨r, hr, h⟩ := exists_of_bind_eq_ok h
  obtain ⟨d, hd, h⟩ := exists_of_bind_eq_ok h
  obtain ⟨s, hs, h⟩ := exists_of_bind_eq_ok h
  obtain ⟨t, _, h⟩ := exists_of_bind_eq_ok h
  obtain ⟨p, hp, h⟩ := exists_of_bind_eq_ok h
  obtain ⟨x, _, h⟩ := exists_of_bind_eq_ok h
  cases h
  exact ⟨d, s, t, r, p, x, hd, hs, hr, hp, rfl⟩

theorem get?_pitchName_of_ofSample {sample duration pitch rate : Int} {frequency : α}
    {ctx : Context α} (h : ofSample sample duration pitch frequency rate = .ok ctx) :
    ∃ x : α, Scalar.ofInt pitch = .ok x ∧ ctx.get? pitchName = some x := by
  obtain ⟨_, _, _, _, p, _, _, _, _, hp, rfl⟩ := exists_of_ofSample h
  exact ⟨p, hp, rfl⟩

/-- A note has one pitch, before it sounds and while it does. -/
theorem intValue_pitchName {sample duration pitch rate : Int} {frequency : α}
    {ctx ctx' : Context α} (h : ofPitch pitch = .ok ctx)
    (h' : ofSample sample duration pitch frequency rate = .ok ctx') :
    Bank.intValue ctx' pitchName = Bank.intValue ctx pitchName := by
  obtain ⟨x, hx, hget⟩ := get?_pitchName_of_ofPitch h
  obtain ⟨x', hx', hget'⟩ := get?_pitchName_of_ofSample h'
  rw [hx] at hx'
  cases hx'
  rw [Bank.intValue, Bank.intValue, hget, hget']

end Context

end Orchestrion

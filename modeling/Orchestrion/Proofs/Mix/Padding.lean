import Orchestrion.Mix.Slots
import Orchestrion.Proofs.Mix.Pcm

set_option autoImplicit false

/-!
# Silence around a mix

Silence before the first slot of a mix and after its last one stays there: samples that
are added within the mix find and leave the same slots, only so much later.  The peak is
not changed by this, and a silent slot becomes a silent sample.
-/

namespace Orchestrion

variable {α : Type} [Scalar α]

namespace Mix

/-- A mix with silence around it. -/
def padded (before after : Nat) (mix : Mix α) : Mix α :=
  ⟨Array.replicate before 0.0 ++ mix.slots ++ Array.replicate after 0.0, mix.peak⟩

theorem padded_silence (before after length : Nat) :
    (silence length : Mix α).padded before after = silence (before + length + after) := by
  simp only [padded, silence, Array.replicate_append_replicate]

theorem addSample_eq (mix : Mix α) (index : Nat) (x : α) :
    mix.addSample index x =
      ⟨mix.slots.setIfInBounds index (addSingle (mix.slots.getD index 0.0) x),
        Scalar.max mix.peak (Scalar.abs (addSingle (mix.slots.getD index 0.0) x))⟩ := rfl

@[simp] theorem size_addSample (mix : Mix α) (index : Nat) (x : α) :
    (mix.addSample index x).slots.size = mix.slots.size :=
  Array.size_setIfInBounds

@[simp] theorem size_add (mix : Mix α) (first : Nat) (xs : List α) :
    (mix.add first xs).slots.size = mix.slots.size := by
  induction xs generalizing mix first with
  | nil => rfl
  | cons x rest ih => rw [add, ih, size_addSample]

/-- A sample that is added within a mix is added within the padded one. -/
theorem addSample_padded (before after : Nat) {mix : Mix α} {index : Nat}
    (h : index < mix.slots.size) (x : α) :
    (mix.padded before after).addSample (before + index) x =
      (mix.addSample index x).padded before after := by
  have hold : (mix.padded before after).slots.getD (before + index) 0.0 =
      mix.slots.getD index 0.0 := by
    have hfront : before + index < (Array.replicate before (0.0 : α) ++ mix.slots).size := by
      rw [Array.size_append, Array.size_replicate]
      omega
    rw [Array.getD_eq_getD_getElem?, Array.getD_eq_getD_getElem?, padded,
      Array.getElem?_append_left hfront, Array.getElem?_append_right (by simp),
      Array.size_replicate, Nat.add_sub_cancel_left]
  have hset (y : α) : (mix.padded before after).slots.setIfInBounds (before + index) y =
      Array.replicate before 0.0 ++ mix.slots.setIfInBounds index y ++
        Array.replicate after 0.0 := by
    apply Array.toList_inj.mp
    simp only [padded, Array.toList_setIfInBounds, Array.toList_append, Array.toList_replicate]
    rw [List.append_assoc, List.set_append_right _ _ (by simp),
      List.length_replicate, Nat.add_sub_cancel_left,
      List.set_append_left _ _ (by simpa using h), List.append_assoc]
  rw [addSample_eq, hold, hset, addSample_eq]
  rfl

/-- Samples that are added within a mix are added within the padded one. -/
theorem add_padded (before after : Nat) {mix : Mix α} {first : Nat} {xs : List α}
    (h : first + xs.length ≤ mix.slots.size) :
    (mix.padded before after).add (before + first) xs = (mix.add first xs).padded before after := by
  induction xs generalizing mix first with
  | nil => rfl
  | cons x rest ih =>
    rw [List.length_cons] at h
    have hrest : first + 1 + rest.length ≤ (mix.addSample first x).slots.size := by
      rw [size_addSample]
      omega
    rw [add, add, addSample_padded before after (by omega), Nat.add_assoc, ih hrest]

end Mix

namespace Pcm

open Scalar.Faithful

theorem size_ofSlots (slots : Array α) (peak : α) : (ofSlots slots peak).size = slots.size := by
  rw [ofSlots]
  split
  · exact Array.size_map
  · exact Array.size_replicate

variable [Scalar.Faithful α] {slots : Array α} {peak : α} {p : ℝ}

/-- A silent slot becomes a silent sample. -/
theorem sampleOf_zero (hp : value peak = some ↑p) (hpos : 0 < p) : sampleOf peak 0.0 = 0 := by
  obtain ⟨c, hc, hquotient⟩ := value_div 0.0 peak 0 p value_zero hp hpos.ne'
  have hzero := hquotient 0.0 0 value_zero
  rw [zero_div] at hzero
  obtain rfl : c = 0 := le_antisymm (hzero.1 le_rfl) (hzero.2 le_rfl)
  obtain ⟨d, hd, hproduct⟩ := value_mul (0.0 / peak) fullScale 0 32767 hc value_fullScale
  have hzero := hproduct 0.0 0 value_zero
  rw [zero_mul] at hzero
  obtain rfl : d = 0 := le_antisymm (hzero.1 le_rfl) (hzero.2 le_rfl)
  have hscaled : scaled peak 0.0 = 0.0 / peak * fullScale := scaled_eq hd (by norm_num)
  have htruncate := truncate_eq _ 0 hd
  rw [sampleOf, hscaled, htruncate]
  exact_mod_cast Scalar.towardZero_intCast 0

/-- Silence around the slots is silence around the samples. -/
theorem ofSlots_padded (before after : Nat) (hp : value peak = some ↑p) :
    ofSlots (Array.replicate before 0.0 ++ slots ++ Array.replicate after 0.0) peak =
      Array.replicate before 0 ++ ofSlots slots peak ++ Array.replicate after 0 := by
  rw [ofSlots, ofSlots]
  by_cases hpeak : Scalar.lt 0.0 peak = true
  · have hpos : 0 < p := by
      rw [lt_of_values value_zero hp] at hpeak
      exact_mod_cast hpeak
    simp only [if_pos hpeak, Array.map_append, Array.map_replicate, sampleOf_zero hp hpos]
  · simp only [if_neg hpeak, Array.size_append, Array.size_replicate,
      Array.replicate_append_replicate]

end Pcm

end Orchestrion

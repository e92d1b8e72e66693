import Orchestrion.Mix.Slots
import Orchestrion.Proofs.Scalar.Faithful
import Mathlib.Data.List.Induction

set_option autoImplicit false

/-!
# What a mix consists of

Whatever has been added to a mix, each of its slots is the sum of the samples that
were added to it, in their order, and its peak is the greatest magnitude among the
sums that its slots have run through.  One more sample keeps this, so all samples of
all notes do.
-/

namespace Orchestrion.Mix

open Scalar.Faithful (IsNumber)

variable {α : Type} [Scalar α]

/-- Samples added up in their order, in single precision. -/
def total (xs : List α) : α := xs.foldl addSingle 0.0

theorem total_concat (xs : List α) (x : α) : total (xs ++ [x]) = addSingle (total xs) x :=
  List.foldl_concat ..

/-- A mix to whose slots certain samples have been added. -/
structure Holds (length : Nat) (heard : Nat → List α) (mix : Mix α) : Prop where
  size : mix.slots.size = length
  slots : ∀ i < length, mix.slots[i]? = some (total (heard i))
  /-- no sum has been greater than the peak -/
  peak_le : ∀ i < length, ∀ front, front <+: heard i → front ≠ [] →
    Scalar.le (Scalar.abs (total front)) mix.peak = true
  /-- some sum has been as great as the peak -/
  peak_eq : mix.peak = 0.0 ∨
    ∃ i < length, ∃ front, front <+: heard i ∧ front ≠ [] ∧ mix.peak = Scalar.abs (total front)

variable [Scalar.Faithful α]

/-- The sample that is added to a slot when samples are added from a slot on. -/
def sampleFor (first : Nat) (xs : List α) (i : Nat) : Option α :=
  if first ≤ i then xs[i - first]? else none

omit [Scalar α] [Scalar.Faithful α] in
theorem toList_sampleFor_cons (first : Nat) (x : α) (rest : List α) (i : Nat) :
    (sampleFor first (x :: rest) i).toList =
      (if i = first then [x] else []) ++ (sampleFor (first + 1) rest i).toList := by
  unfold sampleFor
  rcases Nat.lt_trichotomy i first with hlt | rfl | hgt
  · rw [if_neg (by omega), if_neg (by omega), if_neg (by omega)]
    rfl
  · rw [if_pos (Nat.le_refl i), if_pos rfl, if_neg (by omega), Nat.sub_self]
    rfl
  · have hindex : i - first = (i - (first + 1)) + 1 := by omega
    rw [if_pos (by omega), if_neg (by omega), if_pos (by omega), hindex, List.getElem?_cons_succ]
    rfl

/-! ## Sums -/

theorem withinSingle_addSingle {x y : α} (hx : Scalar.withinSingle x = true) (hy : IsNumber y) :
    Scalar.withinSingle (addSingle x y) = true := by
  obtain ⟨a, ha, _⟩ := Scalar.Faithful.withinSingle_iff.mp hx
  obtain ⟨b, hb⟩ := hy
  obtain ⟨c, hc⟩ := Scalar.Faithful.value_add x y a b ha hb
  obtain ⟨d, hd⟩ := Scalar.Faithful.value_single (x + y) c hc
  exact Scalar.Faithful.withinSingle_clamp ⟨d, hd⟩

/-- A sum never leaves the range of single precision. -/
theorem withinSingle_total {xs : List α} (h : ∀ x ∈ xs, IsNumber x) :
    Scalar.withinSingle (total xs) = true := by
  induction xs using List.reverseRecOn with
  | nil => exact Scalar.Faithful.withinSingle_zero
  | append_singleton xs x ih =>
    rw [total_concat]
    exact withinSingle_addSingle (ih fun y hy => h y (List.mem_append_left _ hy))
      (h x (List.mem_append_right _ List.mem_cons_self))

theorem isNumber_abs {x : α} (h : Scalar.withinSingle x = true) : IsNumber (Scalar.abs x) := by
  obtain ⟨a, ha, _⟩ := Scalar.Faithful.withinSingle_iff.mp h
  exact ⟨↑a ⊔ -↑a, by rw [Scalar.Faithful.value_abs, ha]; rfl⟩

/-! ## One more sample -/

namespace Holds

variable {length : Nat} {heard : Nat → List α} {mix : Mix α}

omit [Scalar.Faithful α] in
theorem silence (length : Nat) : Holds length (fun _ => []) (silence length : Mix α) where
  size := Array.size_replicate
  slots i hi := by
    rw [Mix.silence, Array.getElem?_replicate, if_pos hi]
    rfl
  peak_le i _ front hfront hne := absurd (List.prefix_nil.mp hfront) hne
  peak_eq := .inl rfl

/-- The peak is a finite number, as everything that it has been compared with. -/
theorem exists_value_peak (h : Holds length heard mix)
    (hnumber : ∀ i < length, ∀ x ∈ heard i, IsNumber x) :
    ∃ p : ℝ, Scalar.Faithful.value mix.peak = some ↑p ∧ 0 ≤ p := by
  rcases h.peak_eq with hzero | ⟨i, hi, front, hfront, _, hpeak⟩
  · rw [hzero]
    exact ⟨0, Scalar.Faithful.value_zero, le_rfl⟩
  · have hwithin := withinSingle_total fun x hx => hnumber i hi x (hfront.subset hx)
    obtain ⟨a, ha, _⟩ := Scalar.Faithful.withinSingle_iff.mp hwithin
    rw [hpeak]
    exact ⟨|a|, Scalar.Faithful.value_abs_coe ha, abs_nonneg a⟩

/-- No slot is greater than the peak. -/
theorem slot_le_peak (h : Holds length heard mix)
    (hnumber : ∀ i < length, ∀ x ∈ heard i, IsNumber x) {i : Nat} (hi : i < length) :
    Scalar.le (Scalar.abs (total (heard i))) mix.peak = true := by
  by_cases hnil : heard i = []
  · obtain ⟨p, hp, hpos⟩ := h.exists_value_peak hnumber
    have hzero : Scalar.Faithful.value (total ([] : List α)) = some ((0 : ℝ) : EReal) :=
      Scalar.Faithful.value_zero
    rw [hnil, Scalar.Faithful.le_of_values (Scalar.Faithful.value_abs_coe hzero) hp, abs_zero]
    exact_mod_cast hpos
  · exact h.peak_le i hi (heard i) List.prefix_rfl hnil

theorem addSample (h : Holds length heard mix)
    (hnumber : ∀ i < length, ∀ x ∈ heard i, IsNumber x) {j : Nat} (hj : j < length) {x : α}
    (hx : IsNumber x) :
    Holds length (fun i => heard i ++ if i = j then [x] else []) (mix.addSample j x) := by
  have hsum : addSingle (mix.slots.getD j 0.0) x = total (heard j ++ [x]) := by
    rw [Array.getD_eq_getD_getElem?, h.slots j hj, Option.getD_some, total_concat]
  have hwithin : Scalar.withinSingle (total (heard j ++ [x])) = true := by
    rw [total_concat]
    exact withinSingle_addSingle (withinSingle_total (hnumber j hj)) hx
  obtain ⟨p, hp, _⟩ := h.exists_value_peak hnumber
  obtain ⟨b, hb⟩ := isNumber_abs hwithin
  have hmax := Scalar.Faithful.value_max hp hb
  have hmix : mix.addSample j x = ⟨mix.slots.setIfInBounds j (total (heard j ++ [x])),
      Scalar.max mix.peak (Scalar.abs (total (heard j ++ [x])))⟩ := by
    rw [← hsum]
    rfl
  rw [hmix]
  constructor
  case size => rw [Array.size_setIfInBounds, h.size]
  case slots =>
    intro i hi
    rw [Array.getElem?_setIfInBounds, h.size]
    by_cases hij : i = j
    · subst hij
      rw [if_pos rfl, if_pos hi, if_pos rfl]
    · rw [if_neg (Ne.symm hij), if_neg hij, List.append_nil]
      exact h.slots i hi
  case peak_le =>
    have hold (front : List α) (i : Nat) (hi : i < length) (hfront : front <+: heard i)
        (hne : front ≠ []) : Scalar.le (Scalar.abs (total front))
          (Scalar.max mix.peak (Scalar.abs (total (heard j ++ [x])))) = true :=
      Scalar.Faithful.le_trans (h.peak_le i hi front hfront hne)
        ((Scalar.Faithful.le_of_values hp hmax).mpr le_sup_left)
    intro i hi front hfront hne
    by_cases hij : i = j
    · subst hij
      rw [if_pos rfl] at hfront
      rcases List.prefix_concat_iff.mp hfront with rfl | hfront
      · exact (Scalar.Faithful.le_of_values hb hmax).mpr le_sup_right
      · exact hold front i hi hfront hne
    · rw [if_neg hij, List.append_nil] at hfront
      exact hold front i hi hfront hne
  case peak_eq =>
    rw [Scalar.max]
    split
    · exact .inr ⟨j, hj, heard j ++ [x], by simp only [if_true, List.prefix_rfl], by simp, rfl⟩
    · rcases h.peak_eq with hzero | ⟨i, hi, front, hfront, hne, hpeak⟩
      · exact .inl hzero
      · exact .inr ⟨i, hi, front, hfront.trans (List.prefix_append _ _), hne, hpeak⟩

theorem add (h : Holds length heard mix)
    (hnumber : ∀ i < length, ∀ x ∈ heard i, IsNumber x) {xs : List α}
    (hxs : ∀ x ∈ xs, IsNumber x) {first : Nat} (hroom : first + xs.length ≤ length) :
    Holds length (fun i => heard i ++ (sampleFor first xs i).toList) (mix.add first xs) := by
  induction xs generalizing mix heard first with
  | nil =>
    have hnone : (fun i => heard i ++ (sampleFor first ([] : List α) i).toList) = heard := by
      funext i
      simp [sampleFor]
    rw [hnone]
    exact h
  | cons x rest ih =>
    rw [List.length_cons] at hroom
    have hx := hxs x List.mem_cons_self
    have hfirst := h.addSample hnumber (j := first) (by omega) hx
    have hnumber' : ∀ i < length, ∀ y ∈ heard i ++ (if i = first then [x] else []), IsNumber y := by
      intro i hi y hy
      rcases List.mem_append.mp hy with hy | hy
      · exact hnumber i hi y hy
      · split at hy
        · exact List.mem_singleton.mp hy ▸ hx
        · cases hy
    have hroom' : first + 1 + rest.length ≤ length := by omega
    have hrest := ih hfirst hnumber' (fun y hy => hxs y (List.mem_cons_of_mem x hy)) hroom'
    simp only [toList_sampleFor_cons, ← List.append_assoc]
    exact hrest

end Holds

end Orchestrion.Mix

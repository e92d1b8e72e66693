import Orchestrion.Arrangement.Build
import Mathlib.Data.List.Forall2

set_option autoImplicit false

/-!
# The steps of a build

What is known when a step of the build has succeeded, and where its fault comes
from when it has not.  A part of a document that has to be there and one that may
be left out are found in the same way, and a step that is taken on every item of a
list fails on one of the items or gives one result for each.
-/

namespace Orchestrion

theorem ok_bind {ε β γ : Type} (b : β) (f : β → Except ε γ) : (Except.ok b >>= f) = f b := rfl

/-- A fault of two steps in a row is one of the first, or one of the second. -/
theorem error_of_bind_eq_error {ε β γ : Type} {x : Except ε β} {f : β → Except ε γ} {fault : ε}
    (h : x >>= f = .error fault) :
    x = .error fault ∨ ∃ b, x = .ok b ∧ f b = .error fault := by
  cases x with
  | error fault' => exact .inl (by simpa [bind, Except.bind] using h)
  | ok b => exact .inr ⟨b, rfl, h⟩

namespace Build

open Document (Value Atom NumberFault)

variable {β γ : Type} {v : Value} {key : String} {place : Place} {fault : BuildFault}

/-! ## Parts of a document -/

theorem require_eq_ok_iff {part : Value} :
    require v key place = .ok part ↔ optional v key = some part := by
  cases v with
  | atom a => exact ⟨nofun, nofun⟩
  | list items => exact ⟨nofun, nofun⟩
  | map entries =>
    simp only [require, mapping, optional]
    cases Document.field? entries key with
    | none => exact ⟨nofun, nofun⟩
    | some entry => simp

/-- What is wrong with a part that has to be there is explained to the author. -/
theorem exists_config_of_require (h : require v key place = .error fault) :
    ∃ c, fault = .config c := by
  cases v with
  | atom a => exact ⟨_, (Except.error.inj h).symm⟩
  | list items => exact ⟨_, (Except.error.inj h).symm⟩
  | map entries =>
    simp only [require, mapping] at h
    cases hfield : Document.field? entries key with
    | none =>
      rw [hfield] at h
      exact ⟨_, (Except.error.inj h).symm⟩
    | some entry =>
      rw [hfield] at h
      cases h

theorem name_eq_ok_iff {a : Atom} : name v = .ok a ↔ v = .atom a := by
  cases v with
  | atom a' => simp [name]
  | list items => simp [name]
  | map entries => simp [name]

theorem number_eq_ok_iff {explain : NumberFault → ConfigFault} {r : Except NumberFault β} {b : β} :
    number explain r = .ok b ↔ r = .ok b := by
  cases r with
  | ok b' => simp [number]
  | error fault => cases fault <;> simp [number, reject]

/-! ## Sections -/

/-- The sections that have entries. -/
def sectionNames : List String :=
  ["sample_banks", "waveforms", "envelopes", "instruments", "outputs"]

/-- The entries of a section; one that is left out or does not count as true has
none. -/
def entriesOf (v : Value) (name : String) : List Value :=
  (((optional v name).filter Value.isTrue).bind Value.items?).getD []

/-- A section with entries, or none that counts as true. -/
def IsSection (v : Value) (name : String) : Prop :=
  ∀ part, optional v name = some part → part.isTrue = true → ∃ items, part.items? = some items

theorem entriesOf_of_section? {items : List Value} (h : section? (optional v key) = .ok items) :
    entriesOf v key = items := by
  rw [entriesOf]
  cases hpart : optional v key with
  | none =>
    rw [hpart] at h
    cases h
    rfl
  | some part =>
    rw [hpart] at h
    by_cases htrue : part.isTrue = true
    · simp only [section?, if_pos htrue] at h
      rw [Option.filter_some, if_pos htrue, Option.bind_some]
      cases hitems : part.items? with
      | none =>
        rw [hitems] at h
        cases h
      | some items' =>
        rw [hitems] at h
        cases h
        rfl
    · simp only [section?, if_neg htrue] at h
      cases h
      rw [Option.filter_some, if_neg htrue]
      rfl

theorem IsSection.section?_eq_ok (h : IsSection v key) : section? (optional v key) =
    .ok (entriesOf v key) := by
  rw [entriesOf]
  cases hpart : optional v key with
  | none => rfl
  | some part =>
    by_cases htrue : part.isTrue = true
    · obtain ⟨items, hitems⟩ := h part hpart htrue
      simp only [section?, if_pos htrue, hitems]
      rw [Option.filter_some, if_pos htrue, Option.bind_some, hitems]
      rfl
    · simp only [section?, if_neg htrue]
      rw [Option.filter_some, if_neg htrue]
      rfl

/-! ## A step on each item -/

theorem exists_of_forall₂_right {R : γ → β → Prop} {xs : List γ} {bs : List β} {b : β}
    (h : List.Forall₂ R xs bs) (hb : b ∈ bs) : ∃ x ∈ xs, R x b := by
  induction h with
  | nil => cases hb
  | @cons x b' xs bs' hx _ ih =>
    rcases List.mem_cons.mp hb with rfl | hmem
    · exact ⟨x, List.mem_cons_self, hx⟩
    · obtain ⟨y, hy, hR⟩ := ih hmem
      exact ⟨y, List.mem_cons_of_mem x hy, hR⟩

theorem each_eq_ok_iff {f : γ → Except BuildFault β} {xs : List γ} {bs : List β} :
    each f xs = .ok bs ↔ List.Forall₂ (fun x b => f x = .ok b) xs bs := by
  induction xs generalizing bs with
  | nil => simp [each, eq_comm]
  | cons x xs ih =>
    rw [each]
    cases hx : f x with
    | error fault => cases bs <;> simp [hx]
    | ok b =>
      cases hxs : each f xs with
      | error fault => cases bs <;> simp [hx, ← ih, hxs]
      | ok bs' => cases bs <;> simp [hx, ← ih, hxs]

theorem exists_of_each_eq_error {f : γ → Except BuildFault β} {xs : List γ}
    (h : each f xs = .error fault) : ∃ x ∈ xs, f x = .error fault := by
  induction xs with
  | nil => cases h
  | cons x xs ih =>
    rw [each] at h
    cases hx : f x with
    | error fault' =>
      rw [hx] at h
      cases h
      exact ⟨x, List.mem_cons_self, hx⟩
    | ok b =>
      rw [hx] at h
      cases hxs : each f xs with
      | error fault' =>
        rw [hxs] at h
        cases h
        obtain ⟨y, hy, hfault⟩ := ih hxs
        exact ⟨y, List.mem_cons_of_mem x hy, hfault⟩
      | ok bs =>
        rw [hxs] at h
        cases h

/-! ## A table of the results -/

theorem exists_of_tabulate_eq_error {f : Value → Except BuildFault (Atom × β)} {table : Table β}
    {items : List Value} (h : tabulate f table items = .error fault) :
    ∃ v ∈ items, f v = .error fault := by
  induction items generalizing table with
  | nil => cases h
  | cons v rest ih =>
    rw [tabulate] at h
    cases hv : f v with
    | error fault' =>
      rw [hv] at h
      cases h
      exact ⟨v, List.mem_cons_self, hv⟩
    | ok entry =>
      rw [hv] at h
      obtain ⟨v', hmem, hfault⟩ := ih h
      exact ⟨v', List.mem_cons_of_mem v hmem, hfault⟩

theorem ok_of_mem_tabulate {f : Value → Except BuildFault (Atom × β)} {table table' : Table β}
    {items : List Value} (h : tabulate f table items = .ok table') (hv : v ∈ items) :
    ∃ entry, f v = .ok entry := by
  induction items generalizing table with
  | nil => cases hv
  | cons v' rest ih =>
    rw [tabulate] at h
    cases hv' : f v' with
    | error fault =>
      rw [hv'] at h
      cases h
    | ok entry =>
      rw [hv'] at h
      rcases List.mem_cons.mp hv with rfl | hmem
      · exact ⟨entry, hv'⟩
      · exact ih h hmem

theorem exists_tabulate_eq_ok {f : Value → Except BuildFault (Atom × β)} {items : List Value}
    (h : ∀ v ∈ items, ∃ entry, f v = .ok entry) (table : Table β) :
    ∃ table', tabulate f table items = .ok table' := by
  induction items generalizing table with
  | nil => exact ⟨table, rfl⟩
  | cons v rest ih =>
    obtain ⟨entry, hentry⟩ := h v List.mem_cons_self
    rw [tabulate, hentry]
    exact ih (fun v' hv' => h v' (List.mem_cons_of_mem v hv')) _

end Build

end Orchestrion

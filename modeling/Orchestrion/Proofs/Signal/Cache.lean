import Orchestrion.Signal.Cache

set_option autoImplicit false

/-!
# What the operations of a cache do

Each operation of a cache is described by what it leaves held: nothing that was
not held or put, and, within the limit, what was put last.
-/

namespace Orchestrion.PitchCache

variable {β : Type}

/-! ## Looking -/

/-- What is found is held. -/
theorem mem_of_find? {c : PitchCache β} {pitch : Int} {b : β} (h : c.find? pitch = some b) :
    (pitch, b) ∈ c.entries := by
  obtain ⟨l, r, hl, _⟩ := List.lookup_eq_some_iff.mp h
  rw [hl]
  simp

/-- Nothing is found where no entry has the pitch. -/
theorem lookup_eq_none_of_ne {entries : List (Int × β)} {pitch : Int}
    (h : ∀ e ∈ entries, e.1 ≠ pitch) : List.lookup pitch entries = none := by
  refine List.lookup_eq_none_iff.mpr fun e he => ?_
  simpa using (h e he).symm

theorem find?_eq_none_iff {c : PitchCache β} {pitch : Int} :
    c.find? pitch = none ↔ c.contains pitch = false := by
  unfold contains
  rw [List.any_eq_false]
  constructor
  · intro h e he
    have hne := List.lookup_eq_none_iff.mp h e he
    simpa using (bne_iff_ne.mp hne).symm
  · intro h
    exact lookup_eq_none_of_ne fun e he => by simpa using h e he

theorem fst_ne_of_mem_without {c : PitchCache β} {pitch : Int} {e : Int × β}
    (h : e ∈ c.without pitch) : e.1 ≠ pitch := by
  simpa using (List.mem_filter.mp h).2

/-! ## Using -/

/-- Using a pitch holds nothing new. -/
theorem mem_of_mem_touch {c : PitchCache β} {pitch : Int} {e : Int × β}
    (h : e ∈ (c.touch pitch).entries) : e ∈ c.entries := by
  unfold touch at h
  split at h
  · rename_i b hb
    rw [List.mem_append, List.mem_singleton] at h
    rcases h with h | rfl
    · exact (List.mem_filter.mp h).1
    · exact mem_of_find? hb
  · exact h

@[simp] theorem limit_touch (c : PitchCache β) (pitch : Int) :
    (c.touch pitch).limit = c.limit := by
  unfold touch
  split <;> rfl

/-- The entries without a pitch are looked up like all entries, for every other
pitch. -/
theorem lookup_without {c : PitchCache β} {pitch other : Int} (h : other ≠ pitch) :
    List.lookup other (c.without pitch) = List.lookup other c.entries := by
  unfold without
  induction c.entries with
  | nil => rfl
  | cons e rest ih =>
    by_cases he : e.1 = pitch
    · have hne : (other == e.1) = false := by simpa [he] using h
      rw [List.filter_cons_of_neg (by simpa using he), ih, List.lookup_cons, hne]
    · rw [List.filter_cons_of_pos (by simpa using he), List.lookup_cons, List.lookup_cons, ih]

theorem lookup_without_self (c : PitchCache β) (pitch : Int) :
    List.lookup pitch (c.without pitch) = none :=
  lookup_eq_none_of_ne fun _ he => fst_ne_of_mem_without he

/-- Using a pitch does not change what is found. -/
@[simp] theorem find?_touch (c : PitchCache β) (pitch other : Int) :
    (c.touch pitch).find? other = c.find? other := by
  unfold touch
  split
  · rename_i b hb
    by_cases h : other = pitch
    · subst h
      rw [hb, find?, List.lookup_append, lookup_without_self]
      simp
    · have hne : (other == pitch) = false := by simpa using h
      rw [find?, List.lookup_append, lookup_without h]
      simp [find?, List.lookup_cons, hne]
  · rfl

/-! ## Putting -/

/-- A limit below which a cache can hold something. -/
def IsRoomy (limit : Option Int) : Prop := ∀ n ∈ limit, 1 ≤ n

@[simp] theorem isRoomy_none : IsRoomy none := by
  intro n hn
  cases hn

@[simp] theorem isRoomy_some {n : Int} : IsRoomy (some n) ↔ 1 ≤ n := by
  unfold IsRoomy
  simp

/-- A limit that leaves room can be met. -/
theorem limitHolds_of_isRoomy {c : PitchCache β} (h : IsRoomy c.limit) :
    c.limitHolds = true := by
  unfold limitHolds
  split
  · rename_i n hn
    have hpos : 1 ≤ n := h n hn
    exact decide_eq_true (by omega)
  · rfl

/-- A cache that may hold any natural number of clips can meet its limit. -/
theorem limitHolds_of_nat {c : PitchCache β} {limit : Option Nat}
    (h : c.limit = limit.map Int.ofNat) : c.limitHolds = true := by
  unfold limitHolds
  rw [h]
  cases limit with
  | none => rfl
  | some n => simp

/-- Putting holds nothing new but what is put. -/
theorem mem_of_mem_put {c : PitchCache β} {pitch : Int} {b : β} {e : Int × β}
    (h : e ∈ (c.put pitch b).entries) : e = (pitch, b) ∨ e ∈ c.entries := by
  have hmem : e ∈ c.without pitch ++ [(pitch, b)] := by
    unfold put evict at h
    split at h
    · exact List.mem_of_mem_drop h
    · exact h
  rw [List.mem_append, List.mem_singleton] at hmem
  rcases hmem with hmem | rfl
  · exact .inr (List.mem_filter.mp hmem).1
  · exact .inl rfl

/-- A pitch that is not held is added as the most recent one, and the least
recent ones are dropped. -/
theorem entries_put_of_absent {c : PitchCache β} {pitch : Int} (h : c.contains pitch = false)
    (b : β) : (c.put pitch b).entries = evict c.limit (c.entries ++ [(pitch, b)]) := by
  have hwithout : c.without pitch = c.entries := by
    refine List.filter_eq_self.mpr fun e he => ?_
    simpa using List.any_eq_false.mp h e he
  rw [put, hwithout]

/-- What has just been put is found, when anything can be held. -/
theorem find?_put {c : PitchCache β} (hlimit : IsRoomy c.limit) (pitch : Int) (b : β) :
    (c.put pitch b).find? pitch = some b := by
  unfold put find? evict
  split
  · rename_i n hn
    have hpos : 1 ≤ n := hlimit n hn
    rw [List.drop_append_of_le_length (by simp; omega), List.lookup_append,
      lookup_eq_none_of_ne fun e he => fst_ne_of_mem_without (List.mem_of_mem_drop he)]
    simp
  · rw [List.lookup_append, lookup_without_self]
    simp

end Orchestrion.PitchCache

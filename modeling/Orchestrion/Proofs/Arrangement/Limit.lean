import Orchestrion.Arrangement.Build

set_option autoImplicit false

/-!
# The limit of the caches in an arrangement

The limit to what a cache may hold is handed to the banks and goes nowhere else:
arrangements that are built from one document with two limits differ in the
caches of their banks only.
-/

namespace Orchestrion

/-- A bank with an empty cache in place of its own. -/
def Bank.emptied {α : Type} (limit : Option Int) (b : Bank α) : Bank α :=
  { b with cache := .empty limit }

/-- An arrangement with empty caches in place of its own. -/
def Arrangement.emptied {α : Type} (limit : Option Int) (a : Arrangement α) : Arrangement α :=
  { a with banks := a.banks.map (Prod.map id (Bank.emptied limit)) }

/-- Caches that are emptied again have the later limit. -/
theorem Arrangement.emptied_emptied {α : Type} (a : Arrangement α) (limit limit' : Option Int) :
    (a.emptied limit).emptied limit' = a.emptied limit' := by
  simp only [Arrangement.emptied, List.map_map]
  rfl

namespace Document

variable {β γ : Type}

theorem put_map (f : β → γ) (table : List (Atom × β)) (a : Atom) (b : β) :
    put (table.map (Prod.map id f)) a (f b) = (put table a b).map (Prod.map id f) := by
  induction table with
  | nil => rfl
  | cons entry rest ih =>
    simp only [List.map_cons, put, Prod.map_fst, Prod.map_snd, id]
    split
    · rfl
    · rw [ih]
      rfl

end Document

namespace Build

open Document (Value Atom)

variable {β γ : Type}

theorem tabulate_map (f : β → γ) (step : Value → Except BuildFault (Atom × β))
    (table : Table β) (items : List Value) :
    tabulate (fun v => (step v).map (Prod.map id f)) (table.map (Prod.map id f)) items =
      (tabulate step table items).map (List.map (Prod.map id f)) := by
  induction items generalizing table with
  | nil => rfl
  | cons v rest ih =>
    simp only [tabulate]
    cases step v with
    | error fault => rfl
    | ok entry =>
      simp only [Except.map, Prod.map, id, Document.put_map]
      exact ih _

theorem slot?_map (f : β → γ) (table : Table β) (key : Document.Key) :
    slot? (table.map (Prod.map id f)) key = slot? table key := by
  unfold slot?
  rw [List.findIdx?_map]
  rfl

/-- A bank is the same up to its cache, whatever the limit. -/
theorem bank_limit (base : Path) (limit : Option Int) (entry : Value) :
    bank base limit entry = (bank base none entry).map (Prod.map id (Bank.emptied limit)) := by
  unfold bank
  show _ = Prod.map id (Bank.emptied limit) <$> _
  rw [map_bind]
  refine bind_congr fun label => ?_
  rw [map_bind]
  refine bind_congr fun files => ?_
  cases files with
  | atom a => rfl
  | list items => rfl
  | map entries =>
    simp only [map_bind]
    refine bind_congr fun paths => ?_
    cases Bank.filesOf [] paths with
    | error fault => rfl
    | ok files =>
      simp only [map_bind]
      rfl

/-- An instrument refers to the places of the banks, not to what is in them. -/
theorem instrument_map (f : Bank Float → Bank Float) (s : Sources) :
    instrument { s with banks := s.banks.map (Prod.map id f) } = instrument s := by
  have hcarrier : ∀ key,
      Sources.carrier? { s with banks := s.banks.map (Prod.map id f) } key = s.carrier? key := by
    intro key
    unfold Sources.carrier?
    simp only [slot?_map]
  funext entry
  unfold instrument
  simp only [hcarrier]
  rfl

/-- An arrangement is the same up to its caches, whatever the limit. -/
theorem arrangement_limit (base : Path) (limit : Option Int) (document : Value) :
    arrangement base limit document =
      (arrangement base none document).map (Arrangement.emptied limit) := by
  have hbank : bank base limit =
      fun entry => (bank base none entry).map (Prod.map id (Bank.emptied limit)) :=
    funext (bank_limit base limit)
  have htable : ∀ items, tabulate (bank base limit) [] items =
      List.map (Prod.map id (Bank.emptied limit)) <$> tabulate (bank base none) [] items := by
    intro items
    rw [hbank]
    exact tabulate_map (Bank.emptied limit) (bank base none) [] items
  unfold arrangement
  cases document with
  | atom a => rfl
  | list items => rfl
  | map entries =>
    show _ = Arrangement.emptied limit <$> _
    simp only [map_bind, htable, bind_map_left]
    -- what is worked through after the banks sees the names of their table only
    refine bind_congr fun _ => bind_congr fun _ => bind_congr fun banks => bind_congr fun _ =>
      bind_congr fun waveforms => bind_congr fun _ => bind_congr fun envelopes => ?_
    rw [instrument_map (Bank.emptied limit) ⟨banks, waveforms, envelopes⟩]
    rfl

/-- A document that makes an arrangement with one limit makes one with any other,
which is the same up to its caches. -/
theorem arrangement_of_limit {base : Path} {limit : Option Int} {document : Value}
    {a : Arrangement Float} (h : arrangement base limit document = .ok a)
    (limit' : Option Int) :
    a.emptied limit = a ∧ arrangement base limit' document = .ok (a.emptied limit') := by
  rw [arrangement_limit] at h ⊢
  cases hnone : arrangement base none document with
  | error fault =>
    rw [hnone] at h
    cases h
  | ok a₀ =>
    rw [hnone] at h
    cases h
    exact ⟨a₀.emptied_emptied limit limit, by rw [a₀.emptied_emptied]; rfl⟩

end Build

end Orchestrion

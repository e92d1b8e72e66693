import Orchestrion.Proofs.Mix.Independence
import Orchestrion.Proofs.Mix.Performance

set_option autoImplicit false

/-!
# All outputs together

On an arrangement that was built, an output comes to the same whatever was rendered
before, also where the limit of the caches leaves no room for a clip: an empty cache then
stays empty.  So all outputs together come to what each of them comes to by itself.  The
samples are kept under the names of the outputs: every name has those of the last output
of that name, and an output loses its samples only to a later one of its name.
-/

namespace Orchestrion

variable {α ρ : Type} [Scalar α]

/-! ## Banks that hold nothing -/

omit [Scalar α] in
/-- On banks that never hold a clip a confined run comes to the same each time. -/
theorem Confined.agree {f : Stage α → Except Fault ρ × Stage α} (h : Confined f)
    {rack : List (Bank α)} (hbarren : ∀ b ∈ rack, b.Barren) {st st' : Stage α}
    (hst : st.rack = rack) (hst' : st'.rack = rack) :
    Agree (fun st => st.rack = rack) (f st) (f st') := by
  have hleft : (f st).2.rack = st.rack := h.still st (by rwa [hst])
  have hright : (f st').2.rack = st'.rack := h.still st' (by rwa [hst'])
  refine ⟨?_, hleft.trans hst, hright.trans hst'⟩
  rcases h.cases (hst.trans hst'.symm) with
    ⟨fault, st₁, st₁', hx, hx'⟩ | ⟨x, st₁, st₁', hx, hx', _⟩
  · rw [hx, hx']
  · rw [hx, hx']

theorem Session.repeats_barren (s : Session α) {rack : List (Bank α)}
    (hbarren : ∀ b ∈ rack, b.Barren) : Repeats (fun st => st.rack = rack) s s :=
  ⟨.refl s, fun _ _ hrack hst => hrack.trans hst,
    fun i n _ _ hst hst' => (s.confined_renderNote i n).agree hbarren hst hst'⟩

omit [Scalar α] in
theorem Arrangement.barren_emptied (a : Arrangement α) {limit : Option Int}
    (h : ¬PitchCache.IsRoomy limit) : ∀ b ∈ (a.emptied limit).rack, b.Barren := by
  intro b hb
  obtain ⟨entry, hentry, rfl⟩ := List.mem_map.mp hb
  obtain ⟨entry, _, rfl⟩ := List.mem_map.mp hentry
  exact ⟨rfl, h⟩

/-- Whatever the limit of its caches, an arrangement that was built is rendered alike
after any visits. -/
theorem Build.exists_repeats {base : Path} {limit : Option Int} {document : Document.Value}
    {a : Arrangement Float} (h : Build.arrangement base limit document = .ok a)
    (load : ClipLoader Float) :
    ∃ P : Stage Float → Prop, (∀ visits, P (a.stageAfter load visits)) ∧
      ∀ sampleRate strict,
        Session.Repeats P ⟨a, load, sampleRate, strict⟩ ⟨a, load, sampleRate, strict⟩ := by
  have hself := (Build.arrangement_of_limit h limit).1
  by_cases hlimit : PitchCache.IsRoomy limit
  · have hfresh := a.settled_emptied load hlimit
    rw [hself] at hfresh
    exact ⟨_, Arrangement.settled_stageAfter hfresh,
      fun sampleRate strict => Session.repeats_settled (.refl ⟨a, load, sampleRate, strict⟩) _⟩
  · have hbarren := a.barren_emptied hlimit
    rw [hself] at hbarren
    have hrepeats (sampleRate : Int) (strict : Bool) :=
      Session.repeats_barren ⟨a, load, sampleRate, strict⟩ hbarren
    exact ⟨_, Arrangement.keeps_stageAfter hrepeats rfl, hrepeats⟩

/-! ## Samples under names -/

namespace Session

section

variable (table : List (String × Array Int)) (name : String) (samples : Array Int)

/-- What is set is found under its name, and nothing else changes. -/
theorem lookup_putSamples (other : String) :
    (putSamples table name samples).lookup other =
      if other = name then some samples else table.lookup other := by
  have hlookup (first : String) (samples : Array Int) (rest : List (String × Array Int)) :
      List.lookup other ((first, samples) :: rest) =
        if other = first then some samples else rest.lookup other := by
    by_cases h : other = first
    · rw [if_pos h, h, List.lookup_cons_self]
    · rw [if_neg h, List.lookup_cons, beq_false_of_ne h]
  induction table with
  | nil => exact hlookup name samples []
  | cons entry rest ih =>
    obtain ⟨first, old⟩ := entry
    unfold putSamples
    by_cases hfirst : first = name
    · subst hfirst
      rw [if_pos rfl, hlookup, hlookup]
      split <;> rfl
    · rw [if_neg hfirst, hlookup, hlookup, ih]
      by_cases h : other = first
      · rw [if_pos h, if_neg (h ▸ hfirst), if_pos h]
      · rw [if_neg h, if_neg h]

theorem names_putSamples :
    (putSamples table name samples).map Prod.fst =
      if name ∈ table.map Prod.fst then table.map Prod.fst else table.map Prod.fst ++ [name] := by
  induction table with
  | nil => rfl
  | cons entry rest ih =>
    obtain ⟨first, old⟩ := entry
    unfold putSamples
    by_cases hfirst : first = name
    · simp [hfirst]
    · have hne : name ≠ first := Ne.symm hfirst
      simp only [if_neg hfirst, List.map_cons, ih, List.mem_cons, hne, false_or]
      split <;> rfl

end

variable {takes front back : List (Take α)} {take : Take α}

omit [Scalar α] in
theorem samplesOf_concat (takes : List (Take α)) (take : Take α) :
    samplesOf (takes ++ [take]) = putSamples (samplesOf takes) take.bus.name take.samples :=
  List.foldl_concat ..

omit [Scalar α] in
/-- Every name has one place, and no name is there but those of the outputs. -/
theorem names_samplesOf (takes : List (Take α)) :
    ((samplesOf takes).map Prod.fst).Nodup ∧
      ∀ name, name ∈ (samplesOf takes).map Prod.fst ↔ ∃ take ∈ takes, take.bus.name = name := by
  induction takes using List.reverseRecOn with
  | nil => exact ⟨List.nodup_nil, fun name => by simp [samplesOf]⟩
  | append_singleton takes take ih =>
    obtain ⟨hnodup, hnames⟩ := ih
    have hmore (name : String) : (∃ t ∈ takes ++ [take], t.bus.name = name) ↔
        (∃ t ∈ takes, t.bus.name = name) ∨ name = take.bus.name := by
      simp [or_and_right, exists_or, eq_comm]
    rw [samplesOf_concat, names_putSamples]
    split
    · rename_i hmem
      refine ⟨hnodup, fun name => ?_⟩
      rw [hmore, ← hnames]
      exact ⟨.inl, fun h => h.elim id fun heq => heq ▸ hmem⟩
    · rename_i hmem
      refine ⟨List.nodup_append.mpr ⟨hnodup, List.nodup_singleton _, ?_⟩, fun name => ?_⟩
      · intro name hname other hother
        obtain rfl := List.mem_singleton.mp hother
        rintro rfl
        exact hmem hname
      · rw [hmore, ← hnames, List.mem_append, List.mem_singleton]

omit [Scalar α] in
/-- The last output of a name has its samples under the name. -/
theorem lookup_samplesOf (h : ∀ later ∈ back, later.bus.name ≠ take.bus.name) :
    (samplesOf (front ++ take :: back)).lookup take.bus.name = some take.samples := by
  induction back using List.reverseRecOn with
  | nil =>
    rw [samplesOf_concat, lookup_putSamples, if_pos rfl]
  | append_singleton back later ih =>
    have hlater : take.bus.name ≠ later.bus.name := (h later (by simp)).symm
    rw [← List.cons_append, ← List.append_assoc, samplesOf_concat, lookup_putSamples,
      if_neg hlater]
    exact ih fun t ht => h t (List.mem_append_left _ ht)

/-! ## The samples of all outputs -/

/-- What has been rendered of an output says so. -/
theorem bus_of_renderBus {s : Session α} {notes : List Note} {bus : OutputBus} {st : Stage α}
    (h : (s.renderBus notes bus st).1 = .ok take) : take.bus = bus := by
  unfold renderBus at h
  simp only at h
  split at h
  · cases h
  · split at h
    · cases h
    · cases h
      rfl

/-- A table in which the samples of some outputs stand under their names. -/
structure Lists (render : OutputBus → Except Fault (Take α)) (buses : List OutputBus)
    (table : List (String × Array Int)) : Prop where
  nodup : (table.map Prod.fst).Nodup
  /-- the names are those of the outputs -/
  names : ∀ name, name ∈ table.map Prod.fst ↔ ∃ bus ∈ buses, bus.name = name
  /-- an output that no later one shares its name with is there with its own samples -/
  last : ∀ front bus back, buses = front ++ bus :: back → (∀ later ∈ back, later.name ≠ bus.name) →
    ∃ take, render bus = .ok take ∧ table.lookup bus.name = some take.samples

omit [Scalar α] in
theorem map_bus_of_mapM {render : OutputBus → Except Fault (Take α)}
    (hbus : ∀ bus take, render bus = .ok take → take.bus = bus) {buses : List OutputBus}
    (h : buses.mapM render = .ok takes) : takes.map Take.bus = buses := by
  induction buses generalizing takes with
  | nil =>
    cases h
    rfl
  | cons bus rest ih =>
    rw [List.mapM_cons] at h
    obtain ⟨take, htake, h⟩ := exists_of_bind_eq_ok h
    obtain ⟨more, hmore, h⟩ := exists_of_bind_eq_ok h
    cases h
    rw [List.map_cons, hbus bus take htake, ih hmore]

omit [Scalar α] in
theorem lists_samplesOf {render : OutputBus → Except Fault (Take α)}
    (hbus : ∀ bus take, render bus = .ok take → take.bus = bus) {buses : List OutputBus}
    (h : buses.mapM render = .ok takes) : Lists render buses (samplesOf takes) := by
  obtain ⟨hnodup, hnames⟩ := names_samplesOf takes
  refine ⟨hnodup, fun name => ?_, fun front bus back hbuses hlast => ?_⟩
  · rw [hnames, ← map_bus_of_mapM hbus h]
    simp
  · rw [hbuses, List.mapM_append, List.mapM_cons] at h
    obtain ⟨before, _, h⟩ := exists_of_bind_eq_ok h
    obtain ⟨rest, hrest, h⟩ := exists_of_bind_eq_ok h
    obtain ⟨take, htake, hrest⟩ := exists_of_bind_eq_ok hrest
    obtain ⟨after, hafter, hrest⟩ := exists_of_bind_eq_ok hrest
    cases hrest
    cases h
    have hbackward := map_bus_of_mapM hbus hafter
    refine ⟨take, htake, ?_⟩
    rw [← hbus bus take htake] at hlast ⊢
    refine lookup_samplesOf fun later hlater => ?_
    refine hlast later.bus ?_
    rw [← hbackward]
    exact List.mem_map_of_mem hlater

end Session

open Session in
/-- All outputs of an arrangement that was built stand under their names, each with what
it comes to by itself, whatever was rendered before. -/
theorem Build.lists_renderAll {base : Path} {limit : Option Int} {document : Document.Value}
    {a : Arrangement Float} (h : Build.arrangement base limit document = .ok a)
    (load : ClipLoader Float) (sampleRate : Int) (strict : Bool) {notes : List Note}
    {visits visits' : List (Visit Float)} {table : List (String × Array Int)}
    (htable : ((⟨a, load, sampleRate, strict⟩ : Session Float).renderAll notes
      (a.stageAfter load visits)).1 = .ok table) :
    Lists (fun bus => ((⟨a, load, sampleRate, strict⟩ : Session Float).renderBus notes bus
      (a.stageAfter load visits')).1) a.outputs table := by
  obtain ⟨P, hstage, hrepeats⟩ := Build.exists_repeats h load
  rw [(hrepeats sampleRate strict).renderAll_eq (hstage visits) (hstage visits')] at htable
  obtain ⟨takes, htakes, rfl⟩ := exists_of_map_eq_ok htable
  exact lists_samplesOf (fun _ _ htake => bus_of_renderBus htake) htakes

end Orchestrion

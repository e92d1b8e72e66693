import Orchestrion.Proofs.Arrangement.Steps
import Orchestrion.Proofs.Context
import Mathlib.Data.List.Nodup

set_option autoImplicit false

/-!
# What the names in a document refer to

A name is defined by the entries of the sections for banks, waveforms and
envelopes.  Where several entries of a section have one name, the last of them
counts; a carrier is looked for among the banks and then among the waveforms, a
modulator among the waveforms and then among the envelopes.

The build keeps its definitions in tables, in which a later one takes the place of
an earlier one.  Here the tables are read back as the entries that they were made
of.
-/

namespace Orchestrion

namespace Document

variable {β : Type}

theorem find?_put (table : List (Atom × β)) (a : Atom) (b : β) (key : Key) :
    find? (put table a b) key = if a.key = key then some b else find? table key := by
  induction table with
  | nil => rfl
  | cons entry rest ih =>
    simp only [put]
    by_cases hsame : entry.1.key = a.key
    · rw [if_pos hsame]
      simp only [find?, hsame]
      split <;> rfl
    · rw [if_neg hsame]
      simp only [find?, ih]
      by_cases hentry : entry.1.key = key
      · rw [if_pos hentry, if_pos hentry, if_neg fun h => hsame (hentry.trans h.symm)]
      · rw [if_neg hentry, if_neg hentry]

/-- The keys of a table, in its order. -/
def keysOf (table : List (Atom × β)) : List Key := table.map fun entry => entry.1.key

@[simp] theorem keysOf_cons (entry : Atom × β) (rest : List (Atom × β)) :
    keysOf (entry :: rest) = entry.1.key :: keysOf rest := rfl

theorem keysOf_put (table : List (Atom × β)) (a : Atom) (b : β) :
    keysOf (put table a b) =
      if a.key ∈ keysOf table then keysOf table else keysOf table ++ [a.key] := by
  induction table with
  | nil => rfl
  | cons entry rest ih =>
    simp only [keysOf_cons, List.mem_cons, put]
    by_cases hsame : entry.1.key = a.key
    · rw [if_pos hsame, if_pos (.inl hsame.symm), keysOf_cons]
    · rw [if_neg hsame, keysOf_cons, ih]
      by_cases hmem : a.key ∈ keysOf rest
      · rw [if_pos hmem, if_pos (.inr hmem)]
      · rw [if_neg hmem, if_neg (not_or.mpr ⟨Ne.symm hsame, hmem⟩), List.cons_append]

/-- A key has one place in a table, however often it is set. -/
theorem nodup_keysOf_put {table : List (Atom × β)} (h : (keysOf table).Nodup) (a : Atom) (b : β) :
    (keysOf (put table a b)).Nodup := by
  rw [keysOf_put]
  split
  · exact h
  · rename_i hmem
    rw [List.nodup_append]
    refine ⟨h, List.pairwise_singleton _ _, ?_⟩
    rintro key hkey key' hkey' rfl
    exact hmem (List.mem_singleton.mp hkey' ▸ hkey)

end Document

namespace Build

open Document (Value Atom Key)

variable {β : Type} {base : Path} {limit : Option Int} {document entry : Value} {key : Key}

/-! ## The last entry of a name -/

/-- The key that an entry defines. -/
def nameKey? (entry : Value) : Option Key :=
  match optional entry "name" with
  | some (.atom a) => some a.key
  | _ => none

/-- The last of some entries that defines a key. -/
def lastNamed? (entries : List Value) (key : Key) : Option Value :=
  entries.reverse.find? fun entry => nameKey? entry = some key

/-- Whether some entry defines a key. -/
def Names (entries : List Value) (key : Key) : Prop := ∃ entry ∈ entries, nameKey? entry = some key

theorem lastNamed?_eq_none_iff {entries : List Value} :
    lastNamed? entries key = none ↔ ¬Names entries key := by
  simp [lastNamed?, Names]

theorem lastNamed?_cons (entry : Value) (rest : List Value) (key : Key) :
    lastNamed? (entry :: rest) key =
      (lastNamed? rest key).or (if nameKey? entry = some key then some entry else none) := by
  rw [lastNamed?, List.reverse_cons, List.find?_append]
  congr 1
  by_cases h : nameKey? entry = some key
  · rw [if_pos h, List.find?_singleton, if_pos (decide_eq_true h)]
  · rw [if_neg h, List.find?_singleton, if_neg (by simpa using h)]

theorem nameKey?_of_optional {a : Atom} (h : optional entry "name" = some (.atom a)) :
    nameKey? entry = some a.key := by
  rw [nameKey?, h]

theorem nameKey?_of_bank {r : Atom × Bank Float} (h : bank base limit entry = .ok r) :
    nameKey? entry = some r.1.key := by
  obtain ⟨label, hlabel, h⟩ := exists_of_bind_eq_ok h
  obtain ⟨files, _, h⟩ := exists_of_bind_eq_ok h
  cases files with
  | atom a => cases h
  | list items => cases h
  | map files =>
    obtain ⟨paths, _, h⟩ := exists_of_bind_eq_ok h
    cases hfiles : Bank.filesOf [] paths with
    | error fault =>
      rw [hfiles] at h
      cases h
    | ok files' =>
      rw [hfiles] at h
      obtain ⟨a, ha, h⟩ := exists_of_bind_eq_ok h
      cases h
      rw [name_eq_ok_iff.mp ha] at hlabel
      exact nameKey?_of_optional (require_eq_ok_iff.mp hlabel)

theorem nameKey?_of_waveform {r : Atom × Waveform} (h : waveform entry = .ok r) :
    nameKey? entry = some r.1.key := by
  obtain ⟨label, hlabel, h⟩ := exists_of_bind_eq_ok h
  obtain ⟨equation, _, h⟩ := exists_of_bind_eq_ok h
  cases hformula : Formula.parse equation.shown with
  | error fault =>
    rw [hformula] at h
    cases h
  | ok formula =>
    rw [hformula] at h
    obtain ⟨a, ha, h⟩ := exists_of_bind_eq_ok h
    cases h
    rw [name_eq_ok_iff.mp ha] at hlabel
    exact nameKey?_of_optional (require_eq_ok_iff.mp hlabel)

theorem nameKey?_of_envelope {r : Atom × Envelope Float} (h : envelope entry = .ok r) :
    nameKey? entry = some r.1.key := by
  obtain ⟨label, hlabel, h⟩ := exists_of_bind_eq_ok h
  obtain ⟨phases, _, h⟩ := exists_of_bind_eq_ok h
  cases hitems : phases.items? with
  | none =>
    rw [hitems] at h
    cases h
  | some items =>
    rw [hitems] at h
    obtain ⟨spans, _, h⟩ := exists_of_bind_eq_ok h
    cases hphases : Envelope.phasesOf spans with
    | error unknown =>
      rw [hphases] at h
      cases h
    | ok phases' =>
      rw [hphases] at h
      obtain ⟨a, ha, h⟩ := exists_of_bind_eq_ok h
      cases h
      rw [name_eq_ok_iff.mp ha] at hlabel
      exact nameKey?_of_optional (require_eq_ok_iff.mp hlabel)

/-! ## Tables of definitions -/

section Tables

variable {f : Value → Except BuildFault (Atom × β)} {table table' : Table β} {items : List Value}

/-- A table has under a name what the last entry of this name has become. -/
theorem find?_tabulate (hname : ∀ v r, f v = .ok r → nameKey? v = some r.1.key)
    (h : tabulate f table items = .ok table') (key : Key) :
    Document.find? table' key =
      match lastNamed? items key with
      | some entry => (f entry).toOption.map Prod.snd
      | none => Document.find? table key := by
  induction items generalizing table with
  | nil =>
    cases h
    rfl
  | cons v rest ih =>
    rw [tabulate] at h
    cases hv : f v with
    | error fault =>
      rw [hv] at h
      cases h
    | ok r =>
      rw [hv] at h
      rw [ih h, lastNamed?_cons, hname v r hv, Document.find?_put]
      cases lastNamed? rest key with
      | some entry => rfl
      | none =>
        by_cases hkey : r.1.key = key
        · simp [hkey, hv, Except.toOption]
        · simp [hkey]

theorem nodup_tabulate (hnodup : (Document.keysOf table).Nodup)
    (h : tabulate f table items = .ok table') : (Document.keysOf table').Nodup := by
  induction items generalizing table with
  | nil =>
    cases h
    exact hnodup
  | cons v rest ih =>
    rw [tabulate] at h
    cases hv : f v with
    | error fault =>
      rw [hv] at h
      cases h
    | ok r =>
      rw [hv] at h
      exact ih (Document.nodup_keysOf_put hnodup r.1 r.2) h

theorem find?_tabulate_eq_some (hname : ∀ v r, f v = .ok r → nameKey? v = some r.1.key)
    (h : tabulate f [] items = .ok table') {b : β} (hb : Document.find? table' key = some b) :
    ∃ entry a, lastNamed? items key = some entry ∧ f entry = .ok (a, b) := by
  rw [find?_tabulate hname h] at hb
  cases hlast : lastNamed? items key with
  | none =>
    rw [hlast] at hb
    cases hb
  | some entry =>
    simp only [hlast] at hb
    cases hentry : f entry with
    | error fault =>
      rw [hentry] at hb
      cases hb
    | ok r =>
      rw [hentry] at hb
      cases hb
      exact ⟨entry, r.1, rfl, hentry⟩

theorem find?_tabulate_eq_none (hname : ∀ v r, f v = .ok r → nameKey? v = some r.1.key)
    (h : tabulate f [] items = .ok table') :
    Document.find? table' key = none ↔ ¬Names items key := by
  rw [find?_tabulate hname h, ← lastNamed?_eq_none_iff]
  cases hlast : lastNamed? items key with
  | none => exact iff_of_true rfl rfl
  | some entry =>
    have hmem : entry ∈ items := List.mem_reverse.mp (List.mem_of_find?_eq_some hlast)
    obtain ⟨r, hr⟩ := ok_of_mem_tabulate h hmem
    simp [hr, Except.toOption]

end Tables

theorem slot?_eq_some {table : Table β} {slot : Nat} (h : slot? table key = some slot) :
    ∃ spelling b, table[slot]? = some (spelling, b) ∧ spelling.key = key ∧
      Document.find? table key = some b := by
  induction table generalizing slot with
  | nil => cases h
  | cons entry rest ih =>
    rw [slot?, List.findIdx?_cons] at h
    by_cases hkey : entry.1.key = key
    · simp only [hkey, decide_true, if_true, Option.some.injEq] at h
      subst h
      exact ⟨entry.1, entry.2, rfl, hkey, by simp [Document.find?, hkey]⟩
    · simp only [hkey, decide_false, Bool.false_eq_true, if_false, Option.map_eq_some_iff] at h
      obtain ⟨slot', hslot', rfl⟩ := h
      obtain ⟨spelling, b, hget, hspelling, hfind⟩ := ih hslot'
      exact ⟨spelling, b, hget, hspelling, by simpa [Document.find?, hkey] using hfind⟩

theorem slot?_eq_none_iff {table : Table β} :
    slot? table key = none ↔ Document.find? table key = none := by
  induction table with
  | nil => exact iff_of_true rfl rfl
  | cons entry rest ih =>
    rw [slot?] at ih ⊢
    rw [List.findIdx?_cons, Document.find?]
    by_cases hkey : entry.1.key = key
    · simp [hkey]
    · rw [decide_eq_false hkey, if_neg Bool.false_ne_true, Option.map_eq_none_iff, ih, if_neg hkey]

/-! ## What a name refers to -/

/-- The source that a name stands for as a carrier. -/
inductive CarrierOf (base : Path) (limit : Option Int) (document : Value)
    (banks : Table (Bank Float)) (key : Key) : Source Float → Prop where
  /-- the bank of the last entry of this name, in the only place of this name -/
  | bank {entry : Value} {label spelling : Atom} {b : Bank Float} {slot : Nat}
    (last : lastNamed? (entriesOf document "sample_banks") key = some entry)
    (built : bank base limit entry = .ok (label, b))
    (held : banks[slot]? = some (spelling, b)) (same : spelling.key = key) :
    CarrierOf base limit document banks key (.bank slot)
  /-- the waveform of the last entry of this name, which is no bank's -/
  | waveform {entry : Value} {label : Atom} {w : Waveform}
    (noBank : ¬Names (entriesOf document "sample_banks") key)
    (last : lastNamed? (entriesOf document "waveforms") key = some entry)
    (built : waveform entry = .ok (label, w)) :
    CarrierOf base limit document banks key (.waveform w)

/-- The source that a name stands for as a modulator. -/
inductive ModulatorOf (document : Value) (key : Key) : Source Float → Prop where
  /-- the waveform of the last entry of this name -/
  | waveform {entry : Value} {label : Atom} {w : Waveform}
    (last : lastNamed? (entriesOf document "waveforms") key = some entry)
    (built : waveform entry = .ok (label, w)) : ModulatorOf document key (.waveform w)
  /-- the envelope of the last entry of this name, which is no waveform's -/
  | envelope {entry : Value} {label : Atom} {e : Envelope Float}
    (noWaveform : ¬Names (entriesOf document "waveforms") key)
    (last : lastNamed? (entriesOf document "envelopes") key = some entry)
    (built : envelope entry = .ok (label, e)) : ModulatorOf document key (.envelope e)

theorem CarrierOf.ne_envelope {banks : Table (Bank Float)} {source : Source Float}
    (h : CarrierOf base limit document banks key source) (e : Envelope Float) :
    source ≠ .envelope e := by
  cases h <;> exact nofun

theorem ModulatorOf.ne_bank {source : Source Float} (h : ModulatorOf document key source)
    (slot : Nat) : source ≠ .bank slot := by
  cases h <;> exact nofun

theorem names_of_lastNamed? {entries : List Value} (h : lastNamed? entries key = some entry) :
    Names entries key := by
  rw [← not_not (a := Names entries key), ← lastNamed?_eq_none_iff, h]
  exact nofun

/-- A place of a table is the only one of its key. -/
theorem slot_unique {table : Table β} (hnodup : (Document.keysOf table).Nodup)
    {slot slot' : Nat} {entry entry' : Atom × β} (h : table[slot]? = some entry)
    (h' : table[slot']? = some entry') (hkey : entry.1.key = entry'.1.key) : slot = slot' := by
  obtain ⟨hlt, rfl⟩ := List.getElem?_eq_some_iff.mp h
  obtain ⟨hlt', rfl⟩ := List.getElem?_eq_some_iff.mp h'
  have hslot : slot < (Document.keysOf table).length := by simpa [Document.keysOf] using hlt
  have hslot' : slot' < (Document.keysOf table).length := by simpa [Document.keysOf] using hlt'
  have hget : (Document.keysOf table)[slot] = (Document.keysOf table)[slot'] := by
    simpa only [Document.keysOf, List.getElem_map] using hkey
  exact hnodup.getElem_inj_iff.mp hget

/-- Whoever names a carrier gets the same one. -/
theorem CarrierOf.unique {banks : Table (Bank Float)} (hnodup : (Document.keysOf banks).Nodup)
    {source source' : Source Float} (h : CarrierOf base limit document banks key source)
    (h' : CarrierOf base limit document banks key source') : source = source' := by
  cases h with
  | bank last built held same =>
    cases h' with
    | bank last' built' held' same' =>
      rw [slot_unique hnodup held held' (same.trans same'.symm)]
    | waveform noBank _ _ => exact absurd (names_of_lastNamed? last) noBank
  | waveform noBank last built =>
    cases h' with
    | bank last' _ _ _ => exact absurd (names_of_lastNamed? last') noBank
    | waveform _ last' built' =>
      rw [last] at last'
      cases last'
      rw [built] at built'
      cases built'
      rfl

/-- The tables that the definitions of a document make. -/
structure Defines (base : Path) (limit : Option Int) (document : Value) (sources : Sources) :
    Prop where
  banks : tabulate (bank base limit) [] (entriesOf document "sample_banks") = .ok sources.banks
  waveforms : tabulate waveform [] (entriesOf document "waveforms") = .ok sources.waveforms
  envelopes : tabulate envelope [] (entriesOf document "envelopes") = .ok sources.envelopes

namespace Defines

variable {sources : Sources} {source : Source Float}

theorem carrierOf (h : Defines base limit document sources)
    (hsource : sources.carrier? key = some source) :
    CarrierOf base limit document sources.banks key source := by
  rw [Sources.carrier?] at hsource
  cases hslot : slot? sources.banks key with
  | some slot =>
    rw [hslot] at hsource
    cases hsource
    obtain ⟨spelling, b, held, same, hfind⟩ := slot?_eq_some hslot
    obtain ⟨entry, label, last, built⟩ :=
      find?_tabulate_eq_some (fun _ _ => nameKey?_of_bank) h.banks hfind
    exact .bank last built held same
  | none =>
    rw [hslot] at hsource
    obtain ⟨w, hfind, rfl⟩ := Option.map_eq_some_iff.mp hsource
    obtain ⟨entry, label, last, built⟩ :=
      find?_tabulate_eq_some (fun _ _ => nameKey?_of_waveform) h.waveforms hfind
    refine .waveform ?_ last built
    rw [← find?_tabulate_eq_none (fun _ _ => nameKey?_of_bank) h.banks]
    exact slot?_eq_none_iff.mp hslot

theorem carrier?_eq_none_iff (h : Defines base limit document sources) :
    sources.carrier? key = none ↔
      ¬Names (entriesOf document "sample_banks") key ∧
        ¬Names (entriesOf document "waveforms") key := by
  rw [← find?_tabulate_eq_none (fun _ _ => nameKey?_of_bank) h.banks,
    ← find?_tabulate_eq_none (fun _ _ => nameKey?_of_waveform) h.waveforms,
    ← slot?_eq_none_iff, Sources.carrier?]
  cases slot? sources.banks key with
  | some slot => simp
  | none => simp

theorem modulatorOf (h : Defines base limit document sources)
    (hsource : sources.modulator? key = some source) : ModulatorOf document key source := by
  rw [Sources.modulator?] at hsource
  cases hfind : Document.find? sources.waveforms key with
  | some w =>
    rw [hfind] at hsource
    cases hsource
    obtain ⟨entry, label, last, built⟩ :=
      find?_tabulate_eq_some (fun _ _ => nameKey?_of_waveform) h.waveforms hfind
    exact .waveform last built
  | none =>
    rw [hfind] at hsource
    obtain ⟨e, hfind', rfl⟩ := Option.map_eq_some_iff.mp hsource
    obtain ⟨entry, label, last, built⟩ :=
      find?_tabulate_eq_some (fun _ _ => nameKey?_of_envelope) h.envelopes hfind'
    refine .envelope ?_ last built
    rw [← find?_tabulate_eq_none (fun _ _ => nameKey?_of_waveform) h.waveforms]
    exact hfind

theorem modulator?_eq_none_iff (h : Defines base limit document sources) :
    sources.modulator? key = none ↔
      ¬Names (entriesOf document "waveforms") key ∧
        ¬Names (entriesOf document "envelopes") key := by
  rw [← find?_tabulate_eq_none (fun _ _ => nameKey?_of_waveform) h.waveforms,
    ← find?_tabulate_eq_none (fun _ _ => nameKey?_of_envelope) h.envelopes, Sources.modulator?]
  cases Document.find? sources.waveforms key with
  | some w => simp
  | none => simp

end Defines

/-! ## Instruments -/

/-- What an entry under `am` says. -/
structure ModulationOf (document entry : Value) (m : Modulator Float) : Prop where
  source : ∃ ref : Atom, optional entry "modulator" = some (.atom ref) ∧
    ModulatorOf document ref.key m.source
  depth : match optional entry "depth" with
    | none => m.depth = 1.0
    | some v => v.toReal = .ok m.depth

/-- What an entry under `instruments` says. -/
structure InstrumentOf (base : Path) (limit : Option Int) (document : Value)
    (banks : Table (Bank Float)) (entry : Value) (i : Instrument Float) : Prop where
  name : optional entry "name" = some i.name
  carrier : ∃ ref : Atom, optional entry "carrier" = some (.atom ref) ∧
    CarrierOf base limit document banks ref.key i.carrier
  modulators : List.Forall₂ (ModulationOf document) (entriesOf entry "am") i.modulators
  program : ∃ v, optional entry "midi_inst" = some v ∧ v.toInteger = .ok i.program
  percussion : i.percussion = (optional entry "midi_percussion").elim false Value.isTrue

variable {sources : Sources}

theorem Defines.modulationOf (hdefines : Defines base limit document sources) {label : Value}
    {m : Modulator Float} (h : modulator sources label entry = .ok m) :
    ModulationOf document entry m := by
  obtain ⟨reference, hreference, h⟩ := exists_of_bind_eq_ok h
  obtain ⟨ref, href, h⟩ := exists_of_bind_eq_ok h
  obtain rfl := name_eq_ok_iff.mp href
  cases hsource : sources.modulator? ref.key with
  | none =>
    rw [hsource] at h
    cases h
  | some source =>
    rw [hsource] at h
    cases hentry : optional entry "depth" with
    | none =>
      simp only [hentry] at h
      cases h
      exact ⟨⟨ref, require_eq_ok_iff.mp hreference, hdefines.modulatorOf hsource⟩,
        by simp only [hentry]⟩
    | some v =>
      simp only [hentry] at h
      obtain ⟨depth, hdepth, h⟩ := exists_of_bind_eq_ok h
      cases h
      exact ⟨⟨ref, require_eq_ok_iff.mp hreference, hdefines.modulatorOf hsource⟩,
        by simpa only [hentry] using number_eq_ok_iff.mp hdepth⟩

theorem Defines.instrumentOf (hdefines : Defines base limit document sources)
    {i : Instrument Float} (h : instrument sources entry = .ok i) :
    InstrumentOf base limit document sources.banks entry i := by
  obtain ⟨label, hlabel, h⟩ := exists_of_bind_eq_ok h
  obtain ⟨reference, hreference, h⟩ := exists_of_bind_eq_ok h
  obtain ⟨ref, href, h⟩ := exists_of_bind_eq_ok h
  obtain rfl := name_eq_ok_iff.mp href
  cases hsource : sources.carrier? ref.key with
  | none =>
    rw [hsource] at h
    cases h
  | some source =>
    rw [hsource] at h
    obtain ⟨items, hitems, h⟩ := exists_of_bind_eq_ok h
    obtain ⟨modulators, hmodulators, h⟩ := exists_of_bind_eq_ok h
    obtain ⟨v, hv, h⟩ := exists_of_bind_eq_ok h
    obtain ⟨program, hprogram, h⟩ := exists_of_bind_eq_ok h
    cases h
    rw [← entriesOf_of_section? hitems] at hmodulators
    exact {
      name := require_eq_ok_iff.mp hlabel
      carrier := ⟨ref, require_eq_ok_iff.mp hreference, hdefines.carrierOf hsource⟩
      modulators := (each_eq_ok_iff.mp hmodulators).imp fun _ _ hm => hdefines.modulationOf hm
      program := ⟨v, require_eq_ok_iff.mp hv, number_eq_ok_iff.mp hprogram⟩
      percussion := rfl }

/-- Whether the instrument of an entry plays a program. -/
def Plays (program : Int) (entry : Value) : Prop :=
  (∃ v, optional entry "midi_inst" = some v ∧ v.toInteger = .ok program) ∧
    (optional entry "midi_percussion").elim false Value.isTrue = false

theorem InstrumentOf.plays_iff {banks : Table (Bank Float)} {i : Instrument Float}
    (h : InstrumentOf base limit document banks entry i) (program : Int) :
    i.plays program = true ↔ Plays program entry := by
  obtain ⟨v, hv, hprogram⟩ := h.program
  simp only [Instrument.plays, Bool.and_eq_true, Bool.not_eq_true', beq_iff_eq, Plays,
    ← h.percussion, hv, Option.some.injEq, exists_eq_left', hprogram, Except.ok.injEq]
  exact and_comm

/-- The first instrument that plays a program is that of the first entry that does. -/
theorem find?_plays {banks : Table (Bank Float)} {entries : List Value}
    {instruments : List (Instrument Float)} (program : Int)
    (h : List.Forall₂ (InstrumentOf base limit document banks) entries instruments) :
    match instruments.find? fun i => i.plays program with
    | none => ∀ entry ∈ entries, ¬Plays program entry
    | some i => ∃ before entry after, entries = before ++ entry :: after ∧ Plays program entry ∧
        (∀ entry ∈ before, ¬Plays program entry) ∧ instruments[before.length]? = some i := by
  induction h with
  | nil => exact fun _ hentry => absurd hentry List.not_mem_nil
  | @cons entry i entries instruments hi _ ih =>
    by_cases hplays : Plays program entry
    · rw [List.find?_cons_of_pos (p := fun i : Instrument Float => i.plays program)
        ((hi.plays_iff program).mpr hplays)]
      exact ⟨[], entry, entries, rfl, hplays, fun _ hentry => absurd hentry List.not_mem_nil, rfl⟩
    · rw [List.find?_cons_of_neg (p := fun i : Instrument Float => i.plays program)
        (mt (hi.plays_iff program).mp hplays)]
      cases hfind : instruments.find? fun i => i.plays program with
      | none =>
        rw [hfind] at ih
        exact List.forall_mem_cons.mpr ⟨hplays, ih⟩
      | some i' =>
        rw [hfind] at ih
        obtain ⟨before, entry', after, rfl, hplays', hbefore, hget⟩ := ih
        exact ⟨entry :: before, entry', after, rfl, hplays',
          List.forall_mem_cons.mpr ⟨hplays, hbefore⟩, hget⟩

/-! ## Rejected references -/

/-- A step that is rejected, with an explanation to the author, when something is the
case, and that succeeds otherwise. -/
def RejectsWhen (faulty : Prop) (x : Except BuildFault β) : Prop :=
  (faulty ∧ ∃ c, x = .error (.config c)) ∨ (¬faulty ∧ ∃ b, x = .ok b)

namespace RejectsWhen

variable {γ : Type} {faulty faulty' : Prop} {x : Except BuildFault β}

theorem ok (b : β) : RejectsWhen False (.ok b : Except BuildFault β) := .inr ⟨not_false, b, rfl⟩

theorem of_iff (h : RejectsWhen faulty x) (hiff : faulty ↔ faulty') : RejectsWhen faulty' x := by
  rwa [← propext hiff]

theorem bind {f : β → Except BuildFault γ} (h : RejectsWhen faulty x)
    (hf : ∀ b, x = .ok b → RejectsWhen faulty' (f b)) :
    RejectsWhen (faulty ∨ faulty') (x >>= f) := by
  rcases h with ⟨hfaulty, c, rfl⟩ | ⟨hfine, b, rfl⟩
  · exact .inl ⟨.inl hfaulty, c, rfl⟩
  · exact (hf b rfl).of_iff (by simp [hfine])

theorem each {f : γ → Except BuildFault β} {faulty : γ → Prop} {xs : List γ}
    (h : ∀ x ∈ xs, RejectsWhen (faulty x) (f x)) :
    RejectsWhen (∃ x ∈ xs, faulty x) (each f xs) := by
  induction xs with
  | nil => exact .inr ⟨by simp, [], rfl⟩
  | cons x xs ih =>
    rw [Build.each]
    rcases h x List.mem_cons_self with ⟨hfaulty, c, hx⟩ | ⟨hfine, b, hx⟩
    · rw [hx]
      exact .inl ⟨⟨x, List.mem_cons_self, hfaulty⟩, c, rfl⟩
    · rw [hx]
      rcases ih fun y hy => h y (List.mem_cons_of_mem x hy) with
        ⟨⟨y, hy, hfaulty⟩, c, hxs⟩ | ⟨hfine', bs, hxs⟩
      · rw [hxs]
        exact .inl ⟨⟨y, List.mem_cons_of_mem x hy, hfaulty⟩, c, rfl⟩
      · rw [hxs]
        refine .inr ⟨?_, b :: bs, rfl⟩
        rintro ⟨y, hy, hfaulty⟩
        rcases List.mem_cons.mp hy with rfl | hmem
        · exact hfine hfaulty
        · exact hfine' ⟨y, hmem, hfaulty⟩

end RejectsWhen

/-- A modulator's entry with a name and no depth that is none. -/
structure ModulatorForm (entry : Value) : Prop where
  modulator : ∃ ref : Atom, optional entry "modulator" = some (.atom ref)
  depth : ∀ v, optional entry "depth" = some v → ∃ x, v.toReal = .ok x

/-- An instrument's entry that is as it should be, whatever its names refer to. -/
structure InstrumentForm (entry : Value) : Prop where
  name : ∃ v, optional entry "name" = some v
  carrier : ∃ ref : Atom, optional entry "carrier" = some (.atom ref)
  am : IsSection entry "am"
  modulators : ∀ m ∈ entriesOf entry "am", ModulatorForm m
  program : ∃ v n, optional entry "midi_inst" = some v ∧ v.toInteger = .ok n

/-- Whether a modulator's entry refers to no waveform and no envelope. -/
def LostModulator (document entry : Value) : Prop :=
  ∃ ref : Atom, optional entry "modulator" = some (.atom ref) ∧
    ¬Names (entriesOf document "waveforms") ref.key ∧
    ¬Names (entriesOf document "envelopes") ref.key

/-- Whether an instrument's entry refers to no bank and no waveform as its carrier. -/
def LostCarrier (document entry : Value) : Prop :=
  ∃ ref : Atom, optional entry "carrier" = some (.atom ref) ∧
    ¬Names (entriesOf document "sample_banks") ref.key ∧
    ¬Names (entriesOf document "waveforms") ref.key

/-- Whether some reference of an instrument's entry leads nowhere. -/
def LostReference (document entry : Value) : Prop :=
  LostCarrier document entry ∨ ∃ m ∈ entriesOf entry "am", LostModulator document m

theorem Defines.rejects_modulator (hdefines : Defines base limit document sources) (label : Value)
    (hform : ModulatorForm entry) :
    RejectsWhen (LostModulator document entry) (modulator sources label entry) := by
  obtain ⟨ref, href⟩ := hform.modulator
  have hlost : LostModulator document entry ↔ sources.modulator? ref.key = none := by
    rw [hdefines.modulator?_eq_none_iff, LostModulator]
    simp [href]
  rw [modulator, require_eq_ok_iff.mpr href, ok_bind, name, ok_bind]
  cases hsource : sources.modulator? ref.key with
  | none => exact .inl ⟨hlost.mpr hsource, _, rfl⟩
  | some source =>
    have hfound : ¬LostModulator document entry := by
      rw [hlost, hsource]
      exact Option.some_ne_none source
    refine .inr ⟨hfound, ?_⟩
    cases hdepth : optional entry "depth" with
    | none => exact ⟨_, rfl⟩
    | some v =>
      obtain ⟨x, hx⟩ := hform.depth v hdepth
      simp only [number_eq_ok_iff.mpr hx, ok_bind]
      exact ⟨_, rfl⟩

theorem Defines.rejects_instrument (hdefines : Defines base limit document sources)
    (hform : InstrumentForm entry) :
    RejectsWhen (LostReference document entry) (instrument sources entry) := by
  obtain ⟨label, hlabel⟩ := hform.name
  obtain ⟨ref, href⟩ := hform.carrier
  obtain ⟨v, n, hv, hn⟩ := hform.program
  have hlost : LostCarrier document entry ↔ sources.carrier? ref.key = none := by
    rw [hdefines.carrier?_eq_none_iff, LostCarrier]
    simp [href]
  rw [instrument, require_eq_ok_iff.mpr hlabel, ok_bind, require_eq_ok_iff.mpr href, ok_bind,
    name, ok_bind]
  cases hsource : sources.carrier? ref.key with
  | none => exact .inl ⟨.inl (hlost.mpr hsource), _, rfl⟩
  | some source =>
    have hfound : ¬LostCarrier document entry := by
      rw [hlost, hsource]
      exact Option.some_ne_none source
    have hmodulators := RejectsWhen.each fun m hm =>
      hdefines.rejects_modulator label (hform.modulators m hm)
    simp only [hform.am.section?_eq_ok, ok_bind]
    refine RejectsWhen.of_iff (hmodulators.bind fun ms _ => (?_ : RejectsWhen False _)) ?_
    · rw [require_eq_ok_iff.mpr hv, ok_bind, number_eq_ok_iff.mpr hn, ok_bind]
      exact .ok _
    · simp [LostReference, hfound]

/-! ## Arrangements -/

/-- A document whose sections and entries are as they should be, whatever the names in
it refer to. -/
structure WellFormed (base : Path) (limit : Option Int) (document : Value) : Prop where
  mapping : ∃ entries, document = .map entries
  metadata : ∃ m, metadata base (optional document "metadata") = .ok m
  sections : ∀ name ∈ sectionNames, IsSection document name
  banks : ∀ entry ∈ entriesOf document "sample_banks", ∃ r, bank base limit entry = .ok r
  waveforms : ∀ entry ∈ entriesOf document "waveforms", ∃ r, waveform entry = .ok r
  envelopes : ∀ entry ∈ entriesOf document "envelopes", ∃ r, envelope entry = .ok r
  instruments : ∀ entry ∈ entriesOf document "instruments", InstrumentForm entry
  outputs : ∀ entry ∈ entriesOf document "outputs", ∃ bus, output entry = .ok bus

/-- What an arrangement that has been built is made of. -/
theorem exists_defines_of_arrangement {a : Arrangement Float}
    (h : arrangement base limit document = .ok a) :
    ∃ sources : Sources, Defines base limit document sources ∧ sources.banks = a.banks ∧
      each (instrument sources) (entriesOf document "instruments") = .ok a.instruments ∧
      each output (entriesOf document "outputs") = .ok a.outputs := by
  cases document with
  | atom a => cases h
  | list items => cases h
  | map entries =>
    obtain ⟨_, _, h⟩ := exists_of_bind_eq_ok h
    obtain ⟨bankItems, hbankItems, h⟩ := exists_of_bind_eq_ok h
    obtain ⟨banks, hbanks, h⟩ := exists_of_bind_eq_ok h
    obtain ⟨waveformItems, hwaveformItems, h⟩ := exists_of_bind_eq_ok h
    obtain ⟨waveforms, hwaveforms, h⟩ := exists_of_bind_eq_ok h
    obtain ⟨envelopeItems, henvelopeItems, h⟩ := exists_of_bind_eq_ok h
    obtain ⟨envelopes, henvelopes, h⟩ := exists_of_bind_eq_ok h
    obtain ⟨instrumentItems, hinstrumentItems, h⟩ := exists_of_bind_eq_ok h
    obtain ⟨instruments, hinstruments, h⟩ := exists_of_bind_eq_ok h
    obtain ⟨outputItems, houtputItems, h⟩ := exists_of_bind_eq_ok h
    obtain ⟨outputs, houtputs, h⟩ := exists_of_bind_eq_ok h
    cases h
    have hitems {name : String} {items : List Value}
        (h : section? (Document.field? entries name) = .ok items) :
        entriesOf (.map entries) name = items := entriesOf_of_section? h
    refine ⟨⟨banks, waveforms, envelopes⟩, ⟨?_, ?_, ?_⟩, rfl, ?_, ?_⟩
    · rw [hitems hbankItems, hbanks]
    · rw [hitems hwaveformItems, hwaveforms]
    · rw [hitems henvelopeItems, henvelopes]
    · rw [hitems hinstrumentItems, hinstruments]
    · rw [hitems houtputItems, houtputs]

theorem rejects_arrangement (h : WellFormed base limit document) :
    RejectsWhen (∃ entry ∈ entriesOf document "instruments", LostReference document entry)
      (arrangement base limit document) := by
  obtain ⟨banks, hbanks⟩ := exists_tabulate_eq_ok h.banks []
  obtain ⟨waveforms, hwaveforms⟩ := exists_tabulate_eq_ok h.waveforms []
  obtain ⟨envelopes, henvelopes⟩ := exists_tabulate_eq_ok h.envelopes []
  have hdefines : Defines base limit document ⟨banks, waveforms, envelopes⟩ :=
    ⟨hbanks, hwaveforms, henvelopes⟩
  have hinstruments := RejectsWhen.each fun entry hentry =>
    hdefines.rejects_instrument (h.instruments entry hentry)
  have houtputs : RejectsWhen False (each output (entriesOf document "outputs")) :=
    (RejectsWhen.each fun entry hentry => .inr ⟨not_false, h.outputs entry hentry⟩).of_iff
      (by simp)
  obtain ⟨m, hm⟩ := h.metadata
  have hsections := fun name hname => (h.sections name hname).section?_eq_ok
  obtain ⟨entries, rfl⟩ := h.mapping
  simp only [optional, sectionNames, List.forall_mem_cons] at hm hsections
  obtain ⟨hbankItems, hwaveformItems, henvelopeItems, hinstrumentItems, houtputItems, _⟩ :=
    hsections
  simp only [arrangement, hm, hbankItems, hbanks, hwaveformItems, hwaveforms, henvelopeItems,
    henvelopes, hinstrumentItems, houtputItems, ok_bind]
  refine RejectsWhen.of_iff (hinstruments.bind fun instruments _ =>
    houtputs.bind fun outputs _ => RejectsWhen.ok _) ?_
  rw [or_self, or_false]

/-- **What the names in a document refer to.**  An arrangement has an instrument for
each entry and an output for each entry, in their order.  The carrier of an instrument
is the bank of the last entry of the name that it gives, or else the waveform of the
last such entry, and each of its modulators is the waveform of the last entry of the
name, or else the envelope of the last such entry.  Instruments that name one carrier
share it, with its cache if it is a bank.  A program is played by the instrument of the
first entry that has this program and is not for percussion.  A document that is as it
should be apart from its references is rejected when one of them leads nowhere, and
otherwise makes an arrangement. -/
theorem arrangement_references (base : Path) (limit : Option Int) (document : Value) :
    (∀ a, arrangement base limit document = .ok a →
      List.Forall₂ (InstrumentOf base limit document a.banks) (entriesOf document "instruments")
        a.instruments ∧
      List.Forall₂ (fun entry bus => output entry = .ok bus) (entriesOf document "outputs")
        a.outputs ∧
      (∀ i ∈ a.instruments, (∀ e, i.carrier ≠ .envelope e) ∧
        ∀ m ∈ i.modulators, ∀ slot, m.source ≠ .bank slot) ∧
      (∀ entry i entry' i' (ref ref' : Atom),
        (entry, i) ∈ (entriesOf document "instruments").zip a.instruments →
        (entry', i') ∈ (entriesOf document "instruments").zip a.instruments →
        optional entry "carrier" = some (.atom ref) →
        optional entry' "carrier" = some (.atom ref') → ref.key = ref'.key →
        i.carrier = i'.carrier) ∧
      ∀ program, match a.findInstrument program with
        | none => ∀ entry ∈ entriesOf document "instruments", ¬Plays program entry
        | some i => ∃ before entry after,
          entriesOf document "instruments" = before ++ entry :: after ∧ Plays program entry ∧
            (∀ entry ∈ before, ¬Plays program entry) ∧
            a.instruments[before.length]? = some i) ∧
    (WellFormed base limit document →
      ((∃ entry ∈ entriesOf document "instruments", LostReference document entry) →
        ∃ c, arrangement base limit document = .error (.config c)) ∧
      ((∀ entry ∈ entriesOf document "instruments", ¬LostReference document entry) →
        ∃ a, arrangement base limit document = .ok a)) := by
  constructor
  · intro a h
    obtain ⟨sources, hdefines, hbanks, hinstruments, houtputs⟩ := exists_defines_of_arrangement h
    have hall : List.Forall₂ (InstrumentOf base limit document a.banks)
        (entriesOf document "instruments") a.instruments := by
      rw [← hbanks]
      exact (each_eq_ok_iff.mp hinstruments).imp fun _ _ hi => hdefines.instrumentOf hi
    refine ⟨hall, each_eq_ok_iff.mp houtputs, ?_, ?_, fun program => find?_plays program hall⟩
    · intro i hi
      obtain ⟨entry, _, hentry⟩ := exists_of_forall₂_right hall hi
      obtain ⟨ref, _, hcarrier⟩ := hentry.carrier
      refine ⟨hcarrier.ne_envelope, fun m hm => ?_⟩
      obtain ⟨_, _, hmodulation⟩ := exists_of_forall₂_right hentry.modulators hm
      obtain ⟨ref', _, hmodulator⟩ := hmodulation.source
      exact hmodulator.ne_bank
    · intro entry i entry' i' ref ref' hi hi' href href' hkey
      obtain ⟨ref₁, href₁, hcarrier⟩ := ((List.forall₂_iff_zip.mp hall).2 hi).carrier
      obtain ⟨ref₂, href₂, hcarrier'⟩ := ((List.forall₂_iff_zip.mp hall).2 hi').carrier
      rw [href] at href₁
      rw [href'] at href₂
      cases href₁
      cases href₂
      have hnodup : (Document.keysOf a.banks).Nodup := by
        have hempty : (Document.keysOf ([] : Table (Bank Float))).Nodup := List.nodup_nil
        rw [← hbanks]
        exact nodup_tabulate hempty hdefines.banks
      exact hcarrier.unique hnodup (hkey ▸ hcarrier')
  · intro hform
    rcases rejects_arrangement hform with ⟨hlost, hrejected⟩ | ⟨hfound, hbuilt⟩
    · refine ⟨fun _ => hrejected, fun hnone => ?_⟩
      obtain ⟨entry, hentry, hlost⟩ := hlost
      exact absurd hlost (hnone entry hentry)
    · exact ⟨fun hlost => absurd hlost hfound, fun _ => hbuilt⟩

end Build

end Orchestrion

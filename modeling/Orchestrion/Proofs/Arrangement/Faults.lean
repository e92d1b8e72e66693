import Orchestrion.Proofs.Arrangement.Steps
import Orchestrion.Proofs.Binary64.Unpacked

set_option autoImplicit false

/-!
# What can be wrong with a document

Whatever is wrong with a document that is a mapping, the build explains it to the
author, unless a value is of a kind that cannot be worked with where it stands, or a
number is out of range.  Here it is told in which places of a document such values
are, and that a build which gives up without an explanation has come upon one.
-/

namespace Orchestrion.Build

open Document (Value Atom NumberFault)

/-! ## Kinds of values -/

/-- Null, a truth value or a number: what nothing can be got out of. -/
def IsBare (v : Value) : Prop := ∃ a : Atom, v = .atom a ∧ ∀ s, a ≠ .text s

/-- A list or a mapping. -/
def IsCompound (v : Value) : Prop := ∀ a, v ≠ .atom a

/-- Anything but a text. -/
def IsNoText (v : Value) : Prop := ∀ s, v ≠ Value.ofText s

/-- An integer that is too large for a double. -/
def IsTooLarge (v : Value) : Prop := ∃ n, v = .atom (.int n) ∧ (Float.ofInt n).isInf = true

/-- An infinite number. -/
def IsInfinite (v : Value) : Prop := ∃ x, v = .atom (.real x) ∧ x.isInf = true

/-- Whether a text has a part, or a list an item, that is a word. -/
def Contains (word : String) : Value → Prop
  | .atom (.text s) => word.toList <:+: s.toList
  | .list items => Value.ofText word ∈ items
  | _ => False

/-! ## Places of values that cannot be worked with -/

/-- The phases that an entry under `envelopes` gives. -/
def IsPhaseOf (document phase : Value) : Prop :=
  ∃ entry ∈ entriesOf document "envelopes", ∃ phases items, optional entry "phases" = some phases ∧
    phases.items? = some items ∧ phase ∈ items

/-- The files that an entry under `sample_banks` gives. -/
def IsFileOf (document : Value) (key : Atom) (path : Value) : Prop :=
  ∃ entry ∈ entriesOf document "sample_banks", ∃ files,
    optional entry "files" = some (.map files) ∧ (key, path) ∈ files

/-- A value of a document that is of a kind that cannot be worked with where it stands. -/
inductive Unworkable (document : Value) : KindFault → Prop where
  /-- a number or true as a section -/
  | items {name : String} {part : Value} (listed : name ∈ sectionNames)
    (found : optional document name = some part) (counts : part.isTrue = true) (bare : IsBare part) :
    Unworkable document .noItems
  /-- a number or true as the modulators of an instrument -/
  | am {entry part : Value} (listed : entry ∈ entriesOf document "instruments")
    (found : optional entry "am" = some part) (counts : part.isTrue = true) (bare : IsBare part) :
    Unworkable document .noItems
  /-- null, a truth value or a number as the phases of an envelope -/
  | phases {entry part : Value} (listed : entry ∈ entriesOf document "envelopes")
    (found : optional entry "phases" = some part) (bare : IsBare part) :
    Unworkable document .noItems
  /-- a list or a mapping as the name of a bank, a waveform or an envelope -/
  | name {definitions : String} {entry part : Value}
    (defining : definitions ∈ ["sample_banks", "waveforms", "envelopes"])
    (listed : entry ∈ entriesOf document definitions) (found : optional entry "name" = some part)
    (compound : IsCompound part) : Unworkable document .noName
  /-- a list or a mapping as a carrier -/
  | carrier {entry part : Value} (listed : entry ∈ entriesOf document "instruments")
    (found : optional entry "carrier" = some part) (compound : IsCompound part) :
    Unworkable document .noName
  /-- a list or a mapping as a modulator -/
  | modulator {entry m part : Value} (listed : entry ∈ entriesOf document "instruments")
    (under : m ∈ entriesOf entry "am") (found : optional m "modulator" = some part)
    (compound : IsCompound part) : Unworkable document .noName
  /-- anything but a text as the input file -/
  | inputFile {about part : Value} (found : optional document "metadata" = some about)
    (file : optional about "input_file" = some part) (given : part ≠ .atom .null)
    (noText : IsNoText part) : Unworkable document .noPath
  /-- anything but a text as the path of a clip -/
  | clip {key : Atom} {path : Value} (file : IsFileOf document key path) (noText : IsNoText path) :
    Unworkable document .noPath
  /-- null as the pitch of a clip -/
  | pitch {path : Value} (file : IsFileOf document .null path) : Unworkable document .noPitch
  /-- null, a truth value, a number, or what contains `delta_val`, as a phase -/
  | phase {phase : Value} (listed : IsPhaseOf document phase)
    (closed : IsBare phase ∨ Contains "delta_val" phase) : Unworkable document .noPhase

/-- A number of a document that is out of range where it stands. -/
inductive OutOfRange (document : Value) : Prop where
  | sampleRate {about part : Value} (found : optional document "metadata" = some about)
    (rate : optional about "sample_rate" = some part) (infinite : IsInfinite part)
  | pitch {key : Atom} {path : Value} (file : IsFileOf document key path)
    (large : IsTooLarge (.atom key))
  | phase {phase part : Value} {field : String} (listed : IsPhaseOf document phase)
    (number : field ∈ ["start_time", "end_time", "start_val", "delta_val", "end_val"])
    (found : optional phase field = some part) (large : IsTooLarge part)
  | depth {entry m part : Value} (listed : entry ∈ entriesOf document "instruments")
    (under : m ∈ entriesOf entry "am") (found : optional m "depth" = some part)
    (large : IsTooLarge part)
  | program {entry part : Value} (listed : entry ∈ entriesOf document "instruments")
    (found : optional entry "midi_inst" = some part) (infinite : IsInfinite part)
  | channel {entry part item : Value} {items : List Value}
    (listed : entry ∈ entriesOf document "outputs") (found : optional entry "channels" = some part)
    (run : part.items? = some items) (under : item ∈ items) (infinite : IsInfinite item)

/-- What a fault tells about the document in which it has been found. -/
def Tells (document : Value) : BuildFault → Prop
  | .config _ => True
  | .kind fault => Unworkable document fault
  | .tooLarge => OutOfRange document
  | .noDocument => False

/-! ## Faults of the steps -/

/-- Whether every fault of a step tells about the document. -/
def Accounted {β : Type} (document : Value) (x : Except BuildFault β) : Prop :=
  ∀ fault, x = .error fault → Tells document fault

namespace Accounted

variable {β γ : Type} {document v : Value} {x : Except BuildFault β}

theorem ok (b : β) : Accounted document (.ok b : Except BuildFault β) := fun _ h => nomatch h

theorem reject (c : ConfigFault) : Accounted document (reject c : Except BuildFault β) := by
  rintro _ ⟨⟩
  trivial

theorem kind {fault : KindFault} (h : Unworkable document fault) :
    Accounted document (.error (.kind fault) : Except BuildFault β) := by
  rintro _ ⟨⟩
  exact h

theorem tooLarge (h : OutOfRange document) :
    Accounted document (.error .tooLarge : Except BuildFault β) := by
  rintro _ ⟨⟩
  exact h

theorem bind {f : β → Except BuildFault γ} (hx : Accounted document x)
    (hf : ∀ b, x = .ok b → Accounted document (f b)) : Accounted document (x >>= f) := by
  intro fault h
  rcases error_of_bind_eq_error h with h | ⟨b, hb, h⟩
  · exact hx fault h
  · exact hf b hb fault h

theorem each {f : γ → Except BuildFault β} {xs : List γ}
    (h : ∀ x ∈ xs, Accounted document (f x)) : Accounted document (each f xs) := by
  intro fault hfault
  obtain ⟨x, hx, hfault⟩ := exists_of_each_eq_error hfault
  exact h x hx fault hfault

theorem tabulate {f : Value → Except BuildFault (Atom × β)} {items : List Value}
    (h : ∀ v ∈ items, Accounted document (f v)) (table : Table β) :
    Accounted document (tabulate f table items) := by
  intro fault hfault
  obtain ⟨v, hv, hfault⟩ := exists_of_tabulate_eq_error hfault
  exact h v hv fault hfault

theorem require (key : String) (place : Place) : Accounted document (require v key place) := by
  intro fault h
  obtain ⟨c, rfl⟩ := exists_config_of_require h
  trivial

theorem name (h : IsCompound v → Unworkable document .noName) : Accounted document (name v) := by
  cases v with
  | atom a => exact ok a
  | list items => exact kind (h nofun)
  | map entries => exact kind (h nofun)

theorem resolve {base : Path} (h : IsNoText v → Unworkable document .noPath) :
    Accounted document (resolve base v) := by
  cases v with
  | atom a =>
    cases a with
    | text s => exact ok _
    | null => exact kind (h nofun)
    | bool b => exact kind (h nofun)
    | int n => exact kind (h nofun)
    | real x => exact kind (h nofun)
  | list items => exact kind (h nofun)
  | map entries => exact kind (h nofun)

theorem number {explain : NumberFault → ConfigFault} {r : Except NumberFault β}
    (h : r = .error .tooLarge → OutOfRange document) : Accounted document (number explain r) := by
  cases r with
  | ok b => exact ok b
  | error fault =>
    cases fault with
    | tooLarge => exact tooLarge (h rfl)
    | notInteger s => exact reject _
    | notReal s => exact reject _
    | tooManyDigits n => exact reject _
    | noInteger s => exact reject _
    | noReal s => exact reject _
    | nan => exact reject _

end Accounted

/-! ## Numbers out of range -/

theorem isTooLarge_of_toReal {v : Value} (h : v.toReal = .error .tooLarge) : IsTooLarge v := by
  cases v with
  | atom a =>
    cases a with
    | int n =>
      refine ⟨n, rfl, ?_⟩
      by_cases hinf : (Float.ofInt n).isInf = true
      · exact hinf
      · simp [Value.toReal, Scalar.ofInt, hinf] at h
    | null => cases h
    | bool b => cases h
    | real x => cases h
    | text s =>
      simp only [Value.toReal] at h
      split at h <;> cases h
  | list items => cases h
  | map entries => cases h

theorem isInfinite_of_toInteger {v : Value} (h : v.toInteger = .error .tooLarge) :
    IsInfinite v := by
  cases v with
  | atom a =>
    cases a with
    | real x =>
      refine ⟨x, rfl, ?_⟩
      cases hx : Binary64.ofFloat x with
      | infinite negative => exact Binary64.isInf_of_ofFloat hx
      | nan => simp [Value.toInteger, Scalar.truncate, Binary64.toInteger, hx] at h
      | finite s m e => simp [Value.toInteger, Scalar.truncate, Binary64.toInteger, hx] at h
    | null => cases h
    | bool b => cases h
    | int n => cases h
    | text s =>
      simp only [Value.toInteger] at h
      split at h <;> cases h
  | list items => cases h
  | map entries => cases h

/-- What a fault tells about a key that stands for no pitch. -/
def TellsKey (key : Atom) : PitchKeyFault → Prop
  | .noNumber => key = .null
  | .tooLarge => IsTooLarge (.atom key)
  | _ => True

theorem tellsKey_of_pitchOfKey {key : Atom} {fault : PitchKeyFault}
    (h : pitchOfKey key = .error fault) : TellsKey key fault := by
  cases key with
  | null =>
    cases h
    rfl
  | bool b => cases h
  | int n =>
    by_cases hinf : (Float.ofInt n).isInf = true
    · simp only [pitchOfKey, Scalar.ofInt, if_pos hinf] at h
      cases h
      exact ⟨n, rfl, hinf⟩
    · simp only [pitchOfKey, Scalar.ofInt, if_neg hinf] at h
      split at h <;> cases h
      trivial
  | real x =>
    simp only [pitchOfKey] at h
    split at h <;> cases h
    trivial
  | text s =>
    simp only [pitchOfKey] at h
    split at h
    · split at h <;> cases h
      trivial
    · cases h
      trivial

theorem exists_of_filesOf_eq_error {files : List (Int × String)} {paths : List (Atom × String)}
    {fault : PitchKeyFault} (h : Bank.filesOf files paths = .error fault) :
    ∃ entry ∈ paths, pitchOfKey entry.1 = .error fault := by
  induction paths generalizing files with
  | nil => cases h
  | cons entry rest ih =>
    rw [Bank.filesOf] at h
    cases hpitch : pitchOfKey entry.1 with
    | ok pitch =>
      rw [hpitch] at h
      obtain ⟨entry', hmem, hfault⟩ := ih h
      exact ⟨entry', List.mem_cons_of_mem entry hmem, hfault⟩
    | error fault' =>
      rw [hpitch] at h
      cases h
      exact ⟨entry, List.mem_cons_self, hpitch⟩

/-! ## Faults of the parts -/

namespace Accounted

variable {base : Path} {limit : Option Int} {document entry : Value}

theorem isBare_of_items? {v : Value} (h : v.items? = none) : IsBare v := by
  cases v with
  | atom a =>
    refine ⟨a, rfl, ?_⟩
    rintro s rfl
    cases h
  | list items => cases h
  | map entries => cases h

theorem section_ {v : Option Value}
    (h : ∀ part, v = some part → part.isTrue = true → IsBare part → Unworkable document .noItems) :
    Accounted document (section? v) := by
  cases v with
  | none => exact ok []
  | some part =>
    rw [section?]
    split
    · rename_i htrue
      cases hitems : part.items? with
      | some items => exact ok items
      | none => exact kind (h part rfl htrue (isBare_of_items? hitems))
    · exact ok []

theorem clipPaths {files : List (Atom × Value)}
    (hfiles : ∀ key path, (key, path) ∈ files → IsFileOf document key path) :
    Accounted document (clipPaths base files) := by
  refine each fun ⟨key, path⟩ hfile fault h => ?_
  have hresolve : Accounted document (Build.resolve base path) :=
    resolve fun hnoText => .clip (hfiles key path hfile) hnoText
  simp only at h
  cases hpath : Build.resolve base path with
  | ok resolved =>
    rw [hpath] at h
    cases h
  | error fault' =>
    rw [hpath] at h
    cases h
    exact hresolve fault hpath

theorem mem_files_of_clipPaths {files : List (Atom × Value)} {paths : List (Atom × String)}
    (h : Build.clipPaths base files = .ok paths) {key : Atom} {path : String}
    (hmem : (key, path) ∈ paths) : ∃ v, (key, v) ∈ files := by
  obtain ⟨⟨key', v⟩, hfile, hpath⟩ := exists_of_forall₂_right (each_eq_ok_iff.mp h) hmem
  simp only at hpath
  cases hresolved : Build.resolve base v with
  | ok resolved =>
    rw [hresolved] at hpath
    cases hpath
    exact ⟨v, hfile⟩
  | error fault =>
    rw [hresolved] at hpath
    cases hpath

theorem bank (hentry : entry ∈ entriesOf document "sample_banks") :
    Accounted document (bank base limit entry) := by
  refine bind (require _ _) fun label hlabel => bind (require _ _) fun files hfiles => ?_
  rw [require_eq_ok_iff] at hlabel hfiles
  cases files with
  | atom a => exact reject _
  | list items => exact reject _
  | map files =>
    have hfile (key : Atom) (path : Value) (hmem : (key, path) ∈ files) :
        IsFileOf document key path := ⟨entry, hentry, files, hfiles, hmem⟩
    refine bind (clipPaths hfile) fun paths hpaths => ?_
    cases hpitches : Bank.filesOf [] paths with
    | error fault =>
      obtain ⟨⟨key, path⟩, hmem, hfault⟩ := exists_of_filesOf_eq_error hpitches
      obtain ⟨v, hv⟩ := mem_files_of_clipPaths hpaths hmem
      have hcause := tellsKey_of_pitchOfKey hfault
      cases fault with
      | noNumber =>
        obtain rfl := hcause
        exact kind (.pitch (hfile _ v hv))
      | tooLarge => exact tooLarge (.pitch (hfile key v hv) hcause)
      | malformed s => exact reject _
      | broken key => exact reject _
    | ok files =>
      have hname : IsCompound label → Unworkable document .noName :=
        .name (by simp) hentry hlabel
      exact bind (name hname) fun a _ => ok _

theorem waveform (hentry : entry ∈ entriesOf document "waveforms") :
    Accounted document (waveform entry) := by
  refine bind (require _ _) fun label hlabel => bind (require _ _) fun equation _ => ?_
  rw [require_eq_ok_iff] at hlabel
  cases Formula.parse equation.shown with
  | error fault => exact reject _
  | ok formula => exact bind (name (.name (by simp) hentry hlabel)) fun a _ => ok _

theorem phaseDelta {v : Value} (hphase : IsPhaseOf document v) (place : Place) :
    Accounted document (phaseDelta v place) := by
  cases v with
  | map entries =>
    simp only [Build.phaseDelta]
    split
    · exact ok _
    · exact require _ _
  | atom a =>
    cases a with
    | text s =>
      simp only [Build.phaseDelta, holds?]
      split
      · exact require _ _
      · rename_i hholds
        refine kind (.phase hphase (.inr ?_))
        have hcontains : s.contains "delta_val" = true := by simpa using hholds
        exact String.contains_string_iff.mp hcontains
    | null => exact kind (.phase hphase (.inl ⟨_, rfl, nofun⟩))
    | bool b => exact kind (.phase hphase (.inl ⟨_, rfl, nofun⟩))
    | int n => exact kind (.phase hphase (.inl ⟨_, rfl, nofun⟩))
    | real x => exact kind (.phase hphase (.inl ⟨_, rfl, nofun⟩))
  | list items =>
    simp only [Build.phaseDelta, holds?]
    split
    · exact require _ _
    · rename_i hholds
      refine kind (.phase hphase (.inr ?_))
      have hany := Bool.of_not_eq_false fun hfalse => hholds (congrArg some hfalse)
      obtain ⟨item, hitem, hword⟩ := List.any_eq_true.mp hany
      split at hword
      · rw [beq_iff_eq] at hword
        exact hword ▸ hitem
      · cases hword

/-- The change of a phase is the value of one of two entries. -/
theorem delta_of_phaseDelta {v delta : Value} {place : Place}
    (h : Build.phaseDelta v place = .ok delta) :
    optional v "delta_val" = some delta ∨ optional v "end_val" = some delta := by
  cases v with
  | map entries =>
    simp only [Build.phaseDelta] at h
    split at h
    · rename_i delta' hdelta
      cases h
      exact .inl hdelta
    · exact .inr (require_eq_ok_iff.mp h)
  | atom a =>
    simp only [Build.phaseDelta] at h
    split at h
    · exact .inr (require_eq_ok_iff.mp h)
    · cases h
  | list items =>
    simp only [Build.phaseDelta] at h
    split at h
    · exact .inr (require_eq_ok_iff.mp h)
    · cases h

theorem phase {v : Value} (hphase : IsPhaseOf document v) (envelope : Value) (index : Nat) :
    Accounted document (phase envelope index v) := by
  have hreal {part : Value} {field : String}
      (hfield : field ∈ ["start_time", "end_time", "start_val", "delta_val", "end_val"])
      (hpart : optional v field = some part) :
      Accounted document (Build.number (.badPhase envelope index) part.toReal) :=
    number fun h => .phase hphase hfield hpart (isTooLarge_of_toReal h)
  refine bind (phaseDelta hphase _) fun delta hdelta => ?_
  refine bind (require _ _) fun startTime hstartTime => ?_
  refine bind (hreal (by simp) (require_eq_ok_iff.mp hstartTime)) fun _ _ => ?_
  refine bind (require _ _) fun endTime hendTime => ?_
  refine bind (hreal (by simp) (require_eq_ok_iff.mp hendTime)) fun _ _ => ?_
  refine bind (require _ _) fun startVal hstartVal => ?_
  refine bind (hreal (by simp) (require_eq_ok_iff.mp hstartVal)) fun _ _ => ?_
  have hdelta : Accounted document (Build.number (.badPhase envelope index) delta.toReal) := by
    rcases delta_of_phaseDelta hdelta with hdelta | hdelta
    · exact hreal (by simp) hdelta
    · exact hreal (by simp) hdelta
  exact bind hdelta fun _ _ => ok _

theorem phasesFrom {items : List Value} (hitems : ∀ v ∈ items, IsPhaseOf document v)
    (envelope : Value) (index : Nat) : Accounted document (phasesFrom envelope index items) := by
  induction items generalizing index with
  | nil => exact ok []
  | cons v rest ih =>
    refine bind (phase (hitems v List.mem_cons_self) envelope index) fun _ _ => ?_
    have hrest := ih fun v' hv' => hitems v' (List.mem_cons_of_mem v hv')
    exact bind (hrest (index + 1)) fun _ _ => ok _

theorem envelope (hentry : entry ∈ entriesOf document "envelopes") :
    Accounted document (envelope entry) := by
  refine bind (require _ _) fun label hlabel => bind (require _ _) fun phases hphases => ?_
  rw [require_eq_ok_iff] at hlabel hphases
  cases hitems : phases.items? with
  | none => exact kind (.phases hentry hphases (isBare_of_items? hitems))
  | some items =>
    have hphase (v : Value) (hv : v ∈ items) : IsPhaseOf document v :=
      ⟨entry, hentry, phases, items, hphases, hitems, hv⟩
    refine bind (phasesFrom hphase label 0) fun spans _ => ?_
    cases Envelope.phasesOf spans with
    | error unknown => exact reject _
    | ok phases => exact bind (name (.name (by simp) hentry hlabel)) fun a _ => ok _

theorem modulator {m : Value} (hentry : entry ∈ entriesOf document "instruments")
    (hm : m ∈ entriesOf entry "am") (sources : Sources) (label : Value) :
    Accounted document (modulator sources label m) := by
  refine bind (require _ _) fun reference hreference => ?_
  rw [require_eq_ok_iff] at hreference
  refine bind (name (.modulator hentry hm hreference)) fun a _ => ?_
  cases sources.modulator? a.key with
  | none => exact reject _
  | some source =>
    cases hdepth : optional m "depth" with
    | none => exact ok _
    | some v =>
      refine bind (number fun h => ?_) fun _ _ => ok _
      exact .depth hentry hm hdepth (isTooLarge_of_toReal h)

theorem instrument (hentry : entry ∈ entriesOf document "instruments") (sources : Sources) :
    Accounted document (instrument sources entry) := by
  refine bind (require _ _) fun label _ => bind (require _ _) fun reference hreference => ?_
  rw [require_eq_ok_iff] at hreference
  refine bind (name (.carrier hentry hreference)) fun a _ => ?_
  cases sources.carrier? a.key with
  | none => exact reject _
  | some source =>
    refine bind (section_ fun part hpart => .am hentry hpart) fun items hitems => ?_
    obtain rfl := entriesOf_of_section? hitems
    refine bind (each fun m hm => modulator hentry hm sources label) fun _ _ => ?_
    refine bind (require _ _) fun program hprogram => ?_
    rw [require_eq_ok_iff] at hprogram
    refine bind (number fun h => ?_) fun _ _ => ok _
    exact .program hentry hprogram (isInfinite_of_toInteger h)

theorem output (hentry : entry ∈ entriesOf document "outputs") :
    Accounted document (output entry) := by
  refine bind (require _ _) fun file _ => bind (require _ _) fun routed hrouted => ?_
  rw [require_eq_ok_iff] at hrouted
  refine bind ?_ fun _ _ => ok _
  rw [channels]
  cases hitems : routed.items? with
  | none => exact reject _
  | some items =>
    refine each fun item hitem => number fun h => ?_
    exact .channel hentry hrouted hitems hitem (isInfinite_of_toInteger h)

/-- The metadata of a document, or an empty mapping when they do not count as true. -/
def aboutOf (document : Value) : Value :=
  if ((optional document "metadata").getD (.map [])).isTrue = true then
    (optional document "metadata").getD (.map [])
  else .map []

theorem found_of_aboutOf {key : String} {part : Value}
    (h : optional (aboutOf document) key = some part) :
    optional document "metadata" = some (aboutOf document) := by
  rw [aboutOf] at h ⊢
  cases hgiven : optional document "metadata" with
  | none =>
    rw [hgiven] at h
    cases h
  | some given =>
    rw [hgiven, Option.getD_some] at h
    rw [Option.getD_some]
    by_cases htrue : given.isTrue = true
    · rw [if_pos htrue]
    · rw [if_neg htrue] at h
      cases h

theorem metadata : Accounted document (metadata base (optional document "metadata")) := by
  have hfound : ∀ key part, optional (aboutOf document) key = some part →
      optional document "metadata" = some (aboutOf document) := fun _ _ => found_of_aboutOf
  have habout : (if ((optional document "metadata").getD (.map [])).isTrue = true then
      (optional document "metadata").getD (.map []) else .map []) = aboutOf document := rfl
  rw [Build.metadata]
  simp only [habout]
  generalize aboutOf document = about at hfound
  cases about with
  | atom a => exact reject _
  | list items => exact reject _
  | map entries =>
    simp only
    cases hrate : optional (.map entries) "sample_rate"
    case' none => refine bind (ok _) fun sampleRate _ => ?_
    case' some rate =>
      refine bind (number fun h => ?number) fun sampleRate _ => ?_
      case number => exact .sampleRate (hfound _ _ hrate) hrate (isInfinite_of_toInteger h)
    -- the path of the score is read after the sample rate, whether there is one or not
    all_goals
      split
      · exact bind (ok _) fun _ _ => ok _
      · exact bind (ok _) fun _ _ => ok _
      · rename_i file hnull hfile
        refine bind (resolve fun hnoText => ?_) fun _ _ => bind (ok _) fun _ _ => ok _
        exact .inputFile (hfound _ _ hfile) hfile hnull hnoText

/-- What is done with the entries of a section of the document itself. -/
theorem part {β : Type} {name : String} (hname : name ∈ sectionNames)
    {f : List Value → Except BuildFault β} (hf : Accounted document (f (entriesOf document name))) :
    Accounted document (section? (optional document name) >>= f) := by
  refine bind (section_ fun _ hpart => .items hname hpart) fun items hitems => ?_
  rw [← entriesOf_of_section? hitems]
  exact hf

theorem arrangement (entries : List (Atom × Value)) :
    Accounted (.map entries) (arrangement base limit (.map entries)) := by
  refine bind metadata fun _ _ => ?_
  refine part (by simp [sectionNames]) ?_
  refine bind (tabulate (fun _ hentry => bank hentry) []) fun banks _ => ?_
  refine part (by simp [sectionNames]) ?_
  refine bind (tabulate (fun _ hentry => waveform hentry) []) fun waveforms _ => ?_
  refine part (by simp [sectionNames]) ?_
  refine bind (tabulate (fun _ hentry => envelope hentry) []) fun envelopes _ => ?_
  refine part (by simp [sectionNames]) ?_
  refine bind (each fun _ hentry => instrument hentry _) fun instruments _ => ?_
  refine part (by simp [sectionNames]) ?_
  exact bind (each fun _ hentry => output hentry) fun outputs _ => ok _

end Accounted

/-- **What can be wrong with a document.**  A document that is a mapping makes an
arrangement, or it is explained to the author why it makes none, unless it has a value
of a kind that cannot be worked with where it stands, or a number that is out of range
there. -/
theorem arrangement_faults (base : Path) (limit : Option Int) (entries : List (Atom × Value)) :
    match arrangement base limit (.map entries) with
    | .ok _ => True
    | .error (.config _) => True
    | .error (.kind fault) => Unworkable (.map entries) fault
    | .error .tooLarge => OutOfRange (.map entries)
    | .error .noDocument => False := by
  have haccounted : Accounted (.map entries) (arrangement base limit (.map entries)) :=
    .arrangement entries
  cases harrangement : arrangement base limit (.map entries) with
  | ok a => trivial
  | error fault =>
    have htells := haccounted fault harrangement
    cases fault with
    | config c => trivial
    | kind fault => exact htells
    | tooLarge => exact htells
    | noDocument => exact htells

/-- A list as a carrier is not explained to the author. -/
example : arrangement ⟨0, []⟩ none (.map [(.text "instruments", .list [.map
    [(.text "name", .ofText "organ"), (.text "carrier", .list [])]])]) = .error (.kind .noName) :=
  rfl

end Orchestrion.Build

import Orchestrion.Arrangement.Load
import Orchestrion.Proofs.Files.Tree
import Mathlib.Data.List.Induction
import Mathlib.Data.Nat.Init

set_option autoImplicit false

/-!
# What a library keeps

A library is asked for documents and arrangements while the files change.  What it has once
read under a key stays as it was read until the library is cleared, whatever becomes of the
file; what it has not read is read from the file as it is.  A key is a path without double
dots, so that all ways to write a path lead to one document.

The run is looked at one act at a time.  A document that is kept is kept by every act but a
clearing, and none is kept under a key as long as no call for that key has been answered.
-/

namespace Orchestrion

namespace Document

/-- The key that the document of a path is kept under, seen from the current folder; a path
that no file can have has none. -/
def keyOf? (current : List String) (path : Path) : Option (List String) :=
  if hasZero path then none else some (path.resolved current)

/-- The key of a path that leads somewhere is the place that it leads to, however it is
written. -/
theorem keyOf?_of_namesOf {files : FileTree} {text : String} {names : List String}
    (h : files.namesOf text = .ok names) (hzero : hasZero (.ofText text) = false) :
    keyOf? files.current (.ofText text) = some names := by
  rw [keyOf?, hzero, FileTree.resolved_of_namesOf h]
  rfl

theorem hasZero_eq (path : Path) : hasZero path = decide ('\x00' ∈ path.text.toList) :=
  String.contains_char_eq

namespace Library

variable {lib : Library} {files : FileTree} {current current' : List String} {p q : Path}
  {v : Volume} {fault : LoadFault}

/-- The document that a path gives, without its number. -/
def read (lib : Library) (files : FileTree) (path : Path) : Except LoadFault Value :=
  (lib.document files path).1.map Volume.document

/-! ## One call -/

theorem find?_eq (lib : Library) (current : List String) (p : Path) :
    lib.find? current p =
      (keyOf? current p).bind fun key => lib.volumes.find? fun v => v.names = key := by
  unfold find? keyOf?
  split <;> rfl

theorem find?_congr (lib : Library) (h : keyOf? current q = keyOf? current' p) :
    lib.find? current q = lib.find? current' p := by
  rw [find?_eq, find?_eq, h]

theorem find?_of_volumes_eq_nil (lib : Library) (h : lib.volumes = []) (current : List String)
    (p : Path) : lib.find? current p = none := by
  rw [find?_eq, h]
  cases keyOf? current p <;> rfl

/-- A path of which a file can be read has a key. -/
theorem keyOf?_of_ofFile {parsers : Parsers} {state : FileState} {d : Value}
    (h : ofFile parsers p state = .ok d) (current : List String) :
    keyOf? current p = some (p.resolved current) := by
  unfold ofFile at h
  split at h
  · cases h
  · rename_i hzero
    exact if_neg hzero

/-- The ways in which a call ends: the document is there, it cannot be read, or it is read
and kept. -/
theorem document_cases (lib : Library) (files : FileTree) (p : Path) :
    (∃ v, lib.find? files.current p = some v ∧ lib.document files p = (.ok v, lib)) ∨
    (∃ fault, lib.find? files.current p = none ∧
      ofFile lib.parsers p (files.look p.text) = .error fault ∧
      lib.document files p = (.error fault, lib)) ∨
    ∃ v lib', lib.find? files.current p = none ∧
      ofFile lib.parsers p (files.look p.text) = .ok v.document ∧
      keyOf? files.current p = some v.names ∧ lib'.volumes = v :: lib.volumes ∧
      (lib'.limit = lib.limit ∧ lib'.parsers = lib.parsers) ∧
      lib.document files p = (.ok v, lib') := by
  unfold document
  cases hfind : lib.find? files.current p with
  | some v => exact .inl ⟨v, rfl, rfl⟩
  | none =>
    right
    cases hfile : ofFile lib.parsers p (files.look p.text) with
    | error fault => exact .inl ⟨fault, rfl, rfl, rfl⟩
    | ok d =>
      let v : Volume := ⟨p.resolved files.current, lib.count, d⟩
      let lib' : Library := { lib with volumes := v :: lib.volumes, count := lib.count + 1 }
      exact .inr ⟨v, lib', rfl, rfl, keyOf?_of_ofFile hfile _, rfl, ⟨rfl, rfl⟩, rfl⟩

/-- What is kept is what is given. -/
theorem document_of_find? (h : lib.find? files.current p = some v) :
    lib.document files p = (.ok v, lib) := by
  unfold document
  rw [h]

/-- What is not kept is read from its file. -/
theorem read_of_find?_eq_none (h : lib.find? files.current p = none) :
    lib.read files p = ofFile lib.parsers p (files.look p.text) := by
  unfold read
  obtain ⟨v, hv, _⟩ | ⟨fault, _, hfile, hdocument⟩ | ⟨v, lib', _, hfile, _, _, _, hdocument⟩ :=
    lib.document_cases files p
  · rw [h] at hv
    cases hv
  · rw [hdocument, hfile]
    rfl
  · rw [hdocument, hfile]
    rfl

theorem read_eq_ok_iff {d : Value} : lib.read files p = .ok d ↔
    ∃ v, (lib.document files p).1 = .ok v ∧ v.document = d := by
  unfold read
  cases (lib.document files p).1 <;> simp [Except.map]

theorem read_eq_error_iff :
    lib.read files p = .error fault ↔ (lib.document files p).1 = .error fault := by
  unfold read
  cases (lib.document files p).1 <;> simp [Except.map]

/-- A call that fails leaves the library as it was. -/
theorem document_of_read_eq_error (h : lib.read files p = .error fault) :
    lib.document files p = (.error fault, lib) := by
  rw [read_eq_error_iff] at h
  obtain ⟨v, _, hdocument⟩ | ⟨fault', _, _, hdocument⟩ | ⟨v, lib', _, _, _, _, _, hdocument⟩ :=
    lib.document_cases files p
  all_goals
    rw [hdocument] at h ⊢
    cases h
  rfl

theorem settings_document :
    (lib.document files p).2.limit = lib.limit ∧ (lib.document files p).2.parsers = lib.parsers := by
  obtain ⟨v, _, hdocument⟩ | ⟨fault, _, _, hdocument⟩ |
      ⟨v, lib', _, _, _, _, hsettings, hdocument⟩ := lib.document_cases files p
  · rw [hdocument]
    exact ⟨rfl, rfl⟩
  · rw [hdocument]
    exact ⟨rfl, rfl⟩
  · rw [hdocument]
    exact hsettings

@[simp] theorem limit_document : (lib.document files p).2.limit = lib.limit := settings_document.1

@[simp] theorem parsers_document : (lib.document files p).2.parsers = lib.parsers :=
  settings_document.2

/-- After a call its answer is kept, if there is one, under all spellings of the path; what is
kept for other paths is as it was. -/
theorem find?_document (lib : Library) (files : FileTree) (p : Path) (current : List String)
    (q : Path) :
    (lib.document files p).2.find? current q =
      if keyOf? current q = keyOf? files.current p then (lib.document files p).1.toOption
      else lib.find? current q := by
  -- a library that stays as it is keeps what it gives
  have hstays (r : Except LoadFault Volume) (hfind : lib.find? files.current p = r.toOption)
      (hdocument : lib.document files p = (r, lib)) :
      (lib.document files p).2.find? current q =
        if keyOf? current q = keyOf? files.current p then (lib.document files p).1.toOption
        else lib.find? current q := by
    rw [hdocument]
    split
    · rename_i hkey
      exact (find?_congr lib hkey).trans hfind
    · rfl
  obtain ⟨v, hfind, hdocument⟩ | ⟨fault, hfind, _, hdocument⟩ |
      ⟨v, lib', _, _, hpath, hvolumes, _, hdocument⟩ := lib.document_cases files p
  · exact hstays (.ok v) hfind hdocument
  · exact hstays (.error fault) hfind hdocument
  · rw [hdocument]
    split
    · rename_i hkey
      rw [find?_eq, hkey, hpath, hvolumes, Option.bind_some, List.find?_cons_of_pos]
      · rfl
      · exact decide_eq_true rfl
    · rename_i hkey
      rw [find?_eq, find?_eq, hvolumes]
      cases hq : keyOf? current q with
      | none => rfl
      | some key =>
        have hne : v.names ≠ key := by
          rintro rfl
          exact hkey (hq.trans hpath.symm)
        rw [Option.bind_some, Option.bind_some, List.find?_cons_of_neg]
        simpa using hne

/-- A call for one path makes no difference to another. -/
theorem find?_document_of_ne (hkey : keyOf? current q ≠ keyOf? files.current p) :
    (lib.document files p).2.find? current q = lib.find? current q := by
  rw [find?_document, if_neg hkey]

/-- After a call that is answered, the answer is kept. -/
theorem find?_document_of_ok (h : (lib.document files p).1 = .ok v)
    (hkey : keyOf? current q = keyOf? files.current p) :
    (lib.document files p).2.find? current q = some v := by
  rw [find?_document, if_pos hkey, h]
  rfl

/-- No call takes a document away. -/
theorem find?_document_of_find? (h : lib.find? current q = some v) (files : FileTree) (p : Path) :
    (lib.document files p).2.find? current q = some v := by
  rw [find?_document]
  split
  · rename_i hkey
    rw [find?_congr lib hkey] at h
    rw [document_of_find? h]
    rfl
  · exact h

/-- What is given for a path depends on what is kept for it only. -/
theorem read_congr {lib' : Library} (h : lib'.find? files.current q = lib.find? files.current q)
    (hparsers : lib'.parsers = lib.parsers) : lib'.read files q = lib.read files q := by
  cases hfind : lib.find? files.current q with
  | none => rw [read_of_find?_eq_none hfind, read_of_find?_eq_none (h.trans hfind), hparsers]
  | some v =>
    unfold read
    rw [document_of_find? hfind, document_of_find? (h.trans hfind)]

/-! ## Arrangements -/

theorem snd_arrangement (lib : Library) (files : FileTree) (p : Path) :
    (lib.arrangement files p).2 = (lib.document files p).2 := by
  unfold arrangement
  split <;> simp_all

/-- The arrangement of a path is built from its document, seen from the folder of the path as
it is spelled. -/
theorem fst_arrangement_of_read {d : Value} (h : lib.read files p = .ok d) :
    (lib.arrangement files p).1 =
      (Build.arrangement p.parent lib.limit d).mapError .build := by
  obtain ⟨v, hv, rfl⟩ := read_eq_ok_iff.mp h
  have hlimit : (lib.document files p).2.limit = lib.limit := limit_document
  unfold arrangement
  rw [← hlimit]
  generalize lib.document files p = result at hv
  obtain ⟨r, lib'⟩ := result
  obtain rfl : r = .ok v := hv
  simp only [Build.ofDocument]
  cases Build.arrangement p.parent lib'.limit v.document <;> rfl

theorem fst_arrangement_of_error (h : lib.read files p = .error fault) :
    (lib.arrangement files p).1 = .error (.document fault) := by
  unfold arrangement
  rw [document_of_read_eq_error h]

end Library

/-! ## Runs -/

/-- What is done to a library and to the files that it reads. -/
inductive Act where
  | write (path : String) (content : Bytes)
  | makeFolders (path : String)
  | remove (path : String)
  /-- asks for the document of a path -/
  | document (path : Path)
  /-- asks for the arrangement of a path -/
  | arrangement (path : Path)
  /-- clears the library -/
  | clear

/-- The path whose document an act asks for. -/
def Act.asked? : Act → Option Path
  | .document p | .arrangement p => some p
  | _ => none

/-- A library and the files that it reads. -/
structure Shelf where
  library : Library
  files : FileTree

namespace Shelf

variable {s start : Shelf} {a : Act} {acts before after more : List Act} {p q : Path} {v : Volume}
  {current : List String} {fault : LoadFault}

/-- A shelf with a library that has read nothing. -/
def new (parsers : Parsers) (limit : Option Int) (files : FileTree) : Shelf :=
  ⟨.empty parsers limit, files⟩

/-- What an act does; a file that cannot be written and a folder that cannot be made change
nothing. -/
def step (s : Shelf) : Act → Shelf
  | .write path content => { s with files := (s.files.write? path content).getD s.files }
  | .makeFolders path => { s with files := (s.files.makeFolders path).toOption.getD s.files }
  | .remove path => { s with files := s.files.remove path }
  | .document p => { s with library := (s.library.document s.files p).2 }
  | .arrangement p => { s with library := (s.library.arrangement s.files p).2 }
  | .clear => { s with library := s.library.clear }

/-- What some acts do, one after the other. -/
def run (s : Shelf) (acts : List Act) : Shelf := acts.foldl step s

@[simp] theorem run_nil (s : Shelf) : s.run [] = s := rfl

@[simp] theorem run_cons (s : Shelf) (a : Act) (acts : List Act) :
    s.run (a :: acts) = (s.step a).run acts := rfl

theorem run_append (s : Shelf) (acts more : List Act) :
    s.run (acts ++ more) = (s.run acts).run more := List.foldl_append

/-! ### One act -/

theorem library_step_of_asked (s : Shelf) (h : a.asked? = some p) :
    (s.step a).library = (s.library.document s.files p).2 := by
  cases a with
  | document p' =>
    cases h
    rfl
  | arrangement p' =>
    cases h
    exact s.library.snd_arrangement s.files p
  | _ => cases h

theorem library_step_of_asked_eq_none (s : Shelf) (h : a.asked? = none) (hclear : a ≠ .clear) :
    (s.step a).library = s.library := by
  cases a with
  | clear => exact absurd rfl hclear
  | document p => cases h
  | arrangement p => cases h
  | _ => rfl

theorem settings_step (s : Shelf) (a : Act) :
    (s.step a).library.limit = s.library.limit ∧ (s.step a).library.parsers = s.library.parsers := by
  cases hasked : a.asked? with
  | some p =>
    rw [s.library_step_of_asked hasked]
    exact Library.settings_document
  | none =>
    by_cases hclear : a = .clear
    · subst hclear
      exact ⟨rfl, rfl⟩
    · rw [s.library_step_of_asked_eq_none hasked hclear]
      exact ⟨rfl, rfl⟩

/-- No act leads to another folder. -/
theorem current_step (s : Shelf) (a : Act) : (s.step a).files.current = s.files.current := by
  cases a with
  | write path content =>
    simp only [step]
    cases hwrite : s.files.write? path content with
    | none => rfl
    | some files =>
      obtain ⟨_, _, hwritten, _⟩ := FileTree.exists_of_write? hwrite
      exact hwritten.keeps.current
  | makeFolders path =>
    simp only [step]
    cases hfolders : s.files.makeFolders path with
    | error fault => rfl
    | ok files => exact (FileTree.addsFolders_makeFolders hfolders).keeps.current
  | remove path =>
    simp only [step, FileTree.remove]
    split <;> rfl
  | document p | arrangement p | clear => rfl

/-- An act other than a clearing takes no document away. -/
theorem find?_step (h : s.library.find? current q = some v) (hclear : a ≠ .clear) :
    (s.step a).library.find? current q = some v := by
  cases hasked : a.asked? with
  | some p =>
    rw [s.library_step_of_asked hasked]
    exact Library.find?_document_of_find? h s.files p
  | none =>
    rw [s.library_step_of_asked_eq_none hasked hclear]
    exact h

/-- An act that asks for nothing gives no document to a library. -/
theorem find?_step_of_asked_eq_none (h : s.library.find? current q = none)
    (hasked : a.asked? = none) : (s.step a).library.find? current q = none := by
  by_cases hclear : a = .clear
  · subst hclear
    exact Library.find?_of_volumes_eq_nil _ rfl current q
  · rw [s.library_step_of_asked_eq_none hasked hclear]
    exact h

/-! ### Whole runs -/

/-- What a library has been given, and where it is asked from, stay as they are. -/
theorem settings_run (s : Shelf) (acts : List Act) :
    ((s.run acts).library.limit = s.library.limit ∧
      (s.run acts).library.parsers = s.library.parsers) ∧
    (s.run acts).files.current = s.files.current := by
  induction acts generalizing s with
  | nil => exact ⟨⟨rfl, rfl⟩, rfl⟩
  | cons a acts ih =>
    rw [run_cons, (ih (s.step a)).1.1, (ih (s.step a)).1.2, (ih (s.step a)).2]
    exact ⟨s.settings_step a, s.current_step a⟩

theorem current_run (s : Shelf) (acts : List Act) :
    (s.run acts).files.current = s.files.current := (s.settings_run acts).2

theorem parsers_run (s : Shelf) (acts : List Act) :
    (s.run acts).library.parsers = s.library.parsers := (s.settings_run acts).1.2

/-- A document stays until the library is cleared. -/
theorem find?_run (h : s.library.find? current q = some v) (hclear : Act.clear ∉ acts) :
    (s.run acts).library.find? current q = some v := by
  induction acts generalizing s with
  | nil => exact h
  | cons a acts ih =>
    have hstep := find?_step h (Ne.symm (List.ne_of_not_mem_cons hclear))
    exact ih hstep (List.not_mem_of_not_mem_cons hclear)

theorem find?_run_of_asked_eq_none (h : s.library.find? current q = none)
    (hasked : ∀ a ∈ acts, a.asked? = none) : (s.run acts).library.find? current q = none := by
  induction acts generalizing s with
  | nil => exact h
  | cons a acts ih =>
    have hstep := find?_step_of_asked_eq_none h (hasked a List.mem_cons_self)
    exact ih hstep fun b hb => hasked b (List.mem_cons_of_mem a hb)

/-! ## Readings -/

/-- An act that asks for a document under the key of `p`, and is answered.  An arrangement that
is asked for counts if its document could be read, also where it cannot be built. -/
def Answers (s : Shelf) (a : Act) (q p : Path) : Prop :=
  a.asked? = some q ∧ keyOf? s.files.current q = keyOf? s.files.current p ∧
    ∃ d, s.library.read s.files q = .ok d

/-- Whether a call for the key of `p` has been answered since the last clearing. -/
def HasRead (start : Shelf) (acts : List Act) (p : Path) : Prop :=
  ∃ before a after q, acts = before ++ a :: after ∧ Act.clear ∉ after ∧
    (start.run before).Answers a q p

/-- The first call for the key of `p` that was answered after the last clearing is one for `q`;
`before` is what was done before it. -/
structure IsEarliest (start : Shelf) (acts before : List Act) (q p : Path) : Prop where
  exists_answer : ∃ a after, acts = before ++ a :: after ∧ Act.clear ∉ after ∧
    (start.run before).Answers a q p
  first : ¬start.HasRead before p

theorem Answers.ne_clear (h : s.Answers a q p) : a ≠ .clear := by
  rintro rfl
  cases h.1

theorem HasRead.exists_isEarliest (h : start.HasRead acts p) :
    ∃ before q, start.IsEarliest acts before q p := by
  obtain ⟨before, a, after, q, rfl, hclear, hanswers⟩ := h
  -- as long as there is an earlier one, that one is looked at
  induction hlength : before.length using Nat.strong_induction_on
    generalizing before a after q with
  | _ n ih =>
    by_cases hearlier : start.HasRead before p
    · obtain ⟨before', a', after', q', rfl, hclear', hanswers'⟩ := hearlier
      have hlt : before'.length < n := by
        rw [← hlength, List.length_append, List.length_cons]
        omega
      rw [List.append_assoc, List.cons_append]
      refine ih _ hlt before' a' (after' ++ a :: after) q' ?_ hanswers' rfl
      simp [hclear, hclear', hanswers.ne_clear.symm]
    · exact ⟨before, q, ⟨a, after, rfl, hclear, hanswers⟩, hearlier⟩

/-- What was read before an act that is no clearing counts after it as well. -/
theorem HasRead.concat (h : start.HasRead acts p) (hclear : a ≠ .clear) :
    start.HasRead (acts ++ [a]) p := by
  obtain ⟨before, b, after, q, rfl, hafter, hanswers⟩ := h
  refine ⟨before, b, after ++ [a], q, ?_, ?_, hanswers⟩
  · rw [List.append_assoc, List.cons_append]
  · simp [hafter, hclear.symm]

/-- A call that has no answer leaves no document under its key. -/
theorem find?_step_eq_none (h : s.library.find? s.files.current p = none)
    (hanswers : ∀ q, ¬s.Answers a q p) :
    (s.step a).library.find? s.files.current p = none := by
  cases hasked : a.asked? with
  | none => exact find?_step_of_asked_eq_none h hasked
  | some q =>
    rw [s.library_step_of_asked hasked]
    by_cases hkey : keyOf? s.files.current q = keyOf? s.files.current p
    · cases hread : s.library.read s.files q with
      | ok d => exact absurd ⟨hasked, hkey, d, hread⟩ (hanswers q)
      | error fault =>
        rw [Library.document_of_read_eq_error hread]
        exact h
    · rw [Library.find?_document_of_ne (Ne.symm hkey)]
      exact h

/-- Nothing is kept under a key that has not been read since the last clearing. -/
theorem find?_run_of_not_hasRead (parsers : Parsers) (limit : Option Int) (files : FileTree)
    (h : ¬(new parsers limit files).HasRead acts p) :
    ((new parsers limit files).run acts).library.find? files.current p = none := by
  induction acts using List.reverseRecOn with
  | nil => exact Library.find?_of_volumes_eq_nil _ rfl files.current p
  | append_singleton acts a ih =>
    rw [run_append, run_cons, run_nil]
    by_cases hclear : a = .clear
    · subst hclear
      exact Library.find?_of_volumes_eq_nil _ rfl files.current p
    · have hbefore : ¬(new parsers limit files).HasRead acts p :=
        fun hread => h (hread.concat hclear)
      have hcurrent := (new parsers limit files).current_run acts
      have hnone := ih hbefore
      change ((new parsers limit files).run acts).files.current = files.current at hcurrent
      rw [← hcurrent] at hnone ⊢
      apply find?_step_eq_none hnone
      intro q hanswers
      exact h ⟨acts, a, [], q, rfl, List.not_mem_nil, hanswers⟩

/-- What the earliest call was given was read from its file, and is kept ever since. -/
theorem IsEarliest.exists_volume {parsers : Parsers} {limit : Option Int} {files : FileTree}
    (h : (new parsers limit files).IsEarliest acts before q p) :
    ∃ v, ofFile parsers q (((new parsers limit files).run before).files.look q.text) =
        .ok v.document ∧
      ((new parsers limit files).run acts).library.find? files.current p = some v := by
  obtain ⟨⟨a, after, rfl, hclear, hasked, hkey, d, hread⟩, hfirst⟩ := h
  have hcurrent : ((new parsers limit files).run before).files.current = files.current :=
    (new parsers limit files).current_run before
  have hnone := find?_run_of_not_hasRead parsers limit files hfirst
  rw [← hcurrent, ← Library.find?_congr _ hkey] at hnone
  have hfile := Library.read_of_find?_eq_none hnone
  rw [parsers_run] at hfile
  obtain ⟨v, hv, rfl⟩ := Library.read_eq_ok_iff.mp hread
  refine ⟨v, hfile.symm.trans hread, ?_⟩
  rw [run_append, run_cons]
  apply find?_run _ hclear
  rw [library_step_of_asked _ hasked]
  rw [hcurrent] at hkey
  exact Library.find?_document_of_ok hv (by rw [hcurrent]; exact hkey.symm)

/-! ## What a call gives -/

section

variable {parsers : Parsers} {limit : Option Int} {files : FileTree}

/-- Without an earlier answer a call reads the file as it is. -/
theorem read_of_not_isEarliest
    (h : ¬∃ before q, (new parsers limit files).IsEarliest acts before q p) :
    let s := (new parsers limit files).run acts
    s.library.read s.files p = ofFile parsers p (s.files.look p.text) := by
  intro s
  have hcurrent : s.files.current = files.current := (new parsers limit files).current_run acts
  have hparsers : s.library.parsers = parsers := (new parsers limit files).parsers_run acts
  rw [← hparsers]
  apply Library.read_of_find?_eq_none
  rw [hcurrent]
  apply find?_run_of_not_hasRead parsers limit files
  intro hread
  exact h hread.exists_isEarliest

/-- A call that fails is as good as none: the next one reads the file as it is then. -/
theorem read_run_of_read_eq_error {edits : List Act}
    (h : s.library.read s.files p = .error fault) (ha : a.asked? = some p)
    (hedits : ∀ b ∈ edits, b.asked? = none) :
    let later := s.run (a :: edits)
    later.library.read later.files p = ofFile s.library.parsers p (later.files.look p.text) := by
  intro later
  rw [← s.parsers_run (a :: edits)]
  apply Library.read_of_find?_eq_none
  have hcurrent : later.files.current = s.files.current := s.current_run (a :: edits)
  rw [hcurrent]
  apply find?_run_of_asked_eq_none _ hedits
  rw [s.library_step_of_asked ha, Library.document_of_read_eq_error h]
  cases hfind : s.library.find? s.files.current p with
  | none => rfl
  | some v =>
    rw [Library.read_eq_error_iff, Library.document_of_find? hfind] at h
    cases h

/-- After a call has failed, a file that is written in the place of the bad one gives its
document. -/
theorem read_of_repaired {content : Bytes} {repaired : FileTree} {d : Value}
    (h : s.library.read s.files p = .error fault) (ha : a.asked? = some p)
    (hwrite : (s.step a).files.write? p.text content = some repaired)
    (hd : ofFile s.library.parsers p (.file content) = .ok d) :
    let later := s.run [a, .write p.text content]
    later.library.read later.files p = .ok d := by
  intro later
  have hfiles : later.files = repaired := by
    change ((s.step a).files.write? p.text content).getD (s.step a).files = repaired
    rw [hwrite, Option.getD_some]
  have hedits : ∀ b ∈ [Act.write p.text content], b.asked? = none := by simp [Act.asked?]
  have hread := read_run_of_read_eq_error h ha hedits
  exact hread.trans (by rw [← hd, hfiles, FileTree.look_of_write? hwrite])

/-- An arrangement that is asked for again is the same one, until the library is cleared. -/
theorem fst_arrangement_run {d : Value} (h : s.library.read s.files p = .ok d)
    (hclear : Act.clear ∉ more) :
    let later := s.run (.arrangement p :: more)
    (later.library.arrangement later.files p).1 = (s.library.arrangement s.files p).1 := by
  intro later
  obtain ⟨v, hv, rfl⟩ := Library.read_eq_ok_iff.mp h
  have hcurrent : later.files.current = s.files.current := s.current_run _
  have hlimit : later.library.limit = s.library.limit := (s.settings_run _).1.1
  have hkept : later.library.find? later.files.current p = some v := by
    rw [hcurrent]
    apply find?_run _ hclear
    rw [s.library_step_of_asked rfl]
    exact Library.find?_document_of_ok hv rfl
  have hread : later.library.read later.files p = .ok v.document := by
    rw [Library.read_eq_ok_iff]
    exact ⟨v, by rw [Library.document_of_find? hkept], rfl⟩
  rw [Library.fst_arrangement_of_read hread, Library.fst_arrangement_of_read h, hlimit]

end

/-- A library after any acts, that had read nothing before them, whatever its parsers are.

* The document of a path is the one that the earliest call for the same key gave after the last
  clearing, read from the file as it was then; the library stays as it is.
* If there is no such call, the document is read from the file as it is.
* A call that fails, for a document or for an arrangement, leaves the library as it is, and as
  long as nothing is asked for after it, the next call reads the file again.
* A call makes no difference to what is given for paths of other keys.
* The key of a path that leads to something is the place of that, so that all ways to write the
  path have one key, and paths to different places have different ones.
* An arrangement is built from the document of its path, seen from the folder of the path, and
  until the library is cleared the same call has the same result.
* No call takes the place of a document that is kept. -/
theorem earliest_reading_stays (parsers : Parsers) (limit : Option Int) (files : FileTree)
    (acts : List Act) (p : Path) :
    let start := new parsers limit files
    let s := start.run acts
    let key := keyOf? files.current
    (∀ before q, start.IsEarliest acts before q p →
      ∃ d, ofFile parsers q ((start.run before).files.look q.text) = .ok d ∧
        s.library.read s.files p = .ok d ∧ (s.library.document s.files p).2 = s.library) ∧
    ((¬∃ before q, start.IsEarliest acts before q p) →
      s.library.read s.files p = ofFile parsers p (s.files.look p.text)) ∧
    (∀ fault, s.library.read s.files p = .error fault →
      (s.library.arrangement s.files p).1 = .error (.document fault) ∧
      ∀ a, a.asked? = some p → (s.step a).library = s.library ∧
        ∀ edits, (∀ b ∈ edits, b.asked? = none) →
          let later := s.run (a :: edits)
          later.library.read later.files p = ofFile parsers p (later.files.look p.text)) ∧
    (∀ a, a.asked? = some p → ∀ q files', keyOf? files'.current q ≠ key p →
      (s.step a).library.read files' q = s.library.read files' q) ∧
    (∀ text names, s.files.namesOf text = .ok names → hasZero (.ofText text) = false →
      key (.ofText text) = some names) ∧
    (∀ d, s.library.read s.files p = .ok d →
      (s.library.arrangement s.files p).1 =
        (Build.arrangement p.parent limit d).mapError .build ∧
      ∀ more, Act.clear ∉ more →
        let later := s.run (.arrangement p :: more)
        (later.library.arrangement later.files p).1 = (s.library.arrangement s.files p).1) ∧
    (∀ a q v, a.asked? = some p → s.library.find? files.current q = some v →
      (s.step a).library.find? files.current q = some v) := by
  intro start s key
  have hcurrent : s.files.current = files.current := start.current_run acts
  have hparsers : s.library.parsers = parsers := start.parsers_run acts
  refine ⟨?_, ?_, ?_, ?_, ?_, ?_, ?_⟩
  · intro before q h
    obtain ⟨v, hfile, hfind⟩ := h.exists_volume
    have hdocument : s.library.document s.files p = (.ok v, s.library) :=
      Library.document_of_find? (by rw [hcurrent]; exact hfind)
    refine ⟨v.document, hfile, ?_, ?_⟩
    · rw [Library.read_eq_ok_iff, hdocument]
      exact ⟨v, rfl, rfl⟩
    · rw [hdocument]
  · exact read_of_not_isEarliest
  · intro fault h
    refine ⟨Library.fst_arrangement_of_error h, fun a ha => ⟨?_, ?_⟩⟩
    · rw [s.library_step_of_asked ha, Library.document_of_read_eq_error h]
    · intro edits hedits later
      rw [← hparsers]
      exact read_run_of_read_eq_error h ha hedits
  · intro a ha q files' hkey
    apply Library.read_congr
    · rw [s.library_step_of_asked ha]
      apply Library.find?_document_of_ne
      rw [hcurrent]
      exact hkey
    · exact (s.settings_step a).2
  · intro text names h hzero
    rw [← keyOf?_of_namesOf h hzero, hcurrent]
  · intro d h
    refine ⟨?_, fun more hclear => fst_arrangement_run h hclear⟩
    have hlimit : s.library.limit = limit := (start.settings_run acts).1.1
    rw [Library.fst_arrangement_of_read h, hlimit]
  · intro a q v ha h
    rw [s.library_step_of_asked ha]
    exact Library.find?_document_of_find? h s.files p

/-- A file that is read, and then removed, still gives its document, also under another
spelling of its path, and under a third one that leads out of the current folder and back. -/
theorem earliest_reading_stays_removed :
    let files : FileTree := ⟨["w"], [(["w", "a"], .file [0x7b, 0x7d])]⟩
    let s := (new .builtIn none files).run [.document ⟨0, ["a"]⟩, .remove "a"]
    s.files.look "a" = .missing ∧ s.library.read s.files ⟨0, ["d", "..", "a"]⟩ = .ok (.map []) ∧
      s.library.read s.files ⟨0, ["..", "w", "a"]⟩ = .ok (.map []) := by
  intro files s
  have hnames (t : FileTree) : t.namesOf "a" = .ok (t.current ++ ["a"]) :=
    t.namesOf_of_plain (by decide +kernel : ∀ i < 1, _) (by decide +kernel) (by decide +kernel)
      (by decide +kernel)
  have hlook : files.look (Path.text ⟨0, ["a"]⟩) = .file [0x7b, 0x7d] := by
    have htext : Path.text ⟨0, ["a"]⟩ = "a" := rfl
    rw [htext, FileTree.look, hnames]
    rfl
  have hfile : ofFile .builtIn ⟨0, ["a"]⟩ (files.look (Path.text ⟨0, ["a"]⟩)) = .ok (.map []) := by
    rw [hlook, ofFile, hasZero_eq, if_neg (by decide)]
    rfl
  have hread (parts : List String) (hzero : '\x00' ∉ (Path.text ⟨0, parts⟩).toList)
      (hresolved : Path.resolved ["w"] ⟨0, parts⟩ = ["w", "a"]) :
      s.library.read s.files ⟨0, parts⟩ = .ok (.map []) := by
    have hkey : keyOf? files.current ⟨0, ["a"]⟩ = keyOf? files.current ⟨0, parts⟩ := by
      rw [keyOf?, keyOf?, hasZero_eq, hasZero_eq, if_neg (by decide), if_neg (by simpa using hzero)]
      exact congrArg some hresolved.symm
    have hempty := (new .builtIn none files).library.find?_of_volumes_eq_nil rfl files.current
      ⟨0, ["a"]⟩
    have hearliest : (new .builtIn none files).IsEarliest [.document ⟨0, ["a"]⟩, .remove "a"] []
        ⟨0, ["a"]⟩ ⟨0, parts⟩ := by
      refine ⟨⟨.document ⟨0, ["a"]⟩, [.remove "a"], rfl, by simp, rfl, hkey, .map [], ?_⟩, ?_⟩
      · exact (Library.read_of_find?_eq_none hempty).trans hfile
      · simp [HasRead]
    obtain ⟨d, hd, hread, _⟩ := (earliest_reading_stays .builtIn none files
      [.document ⟨0, ["a"]⟩, .remove "a"] ⟨0, parts⟩).1 [] ⟨0, ["a"]⟩ hearliest
    obtain rfl : d = .map [] := Except.ok.inj (hd.symm.trans hfile)
    exact hread
  refine ⟨?_, hread _ (by decide) rfl, hread _ (by decide) rfl⟩
  have hfiles : s.files = files.remove "a" := rfl
  rw [hfiles, FileTree.look, hnames, FileTree.remove, hnames]
  rfl

end Shelf

end Document

end Orchestrion

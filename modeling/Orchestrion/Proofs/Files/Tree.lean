import Orchestrion.Files.Tree
import Mathlib.Logic.Function.Basic

set_option autoImplicit false

/-!
# What stays in a tree of files

Making folders takes nothing out of a tree and adds no file to it, and writing a file changes
what is at its own place only, which is never that of a folder.  So a path that has led
somewhere goes on leading there: all the names on its way are those of folders.

A path that leads anywhere leads to what it is resolved to, however it is written
(`resolved_of_namesOf`).
-/

namespace Orchestrion

namespace Path

/-! ## Paths by their names -/

theorem isAbsolute_ofText (path : String) : (ofText path).isAbsolute = path.startsWith "/" := by
  rw [Bool.eq_iff_iff, String.startsWith_string_iff]
  unfold isAbsolute ofText
  cases h : path.toList with
  | nil => simp
  | cons c rest =>
    by_cases hc : c = '/'
    · simp [hc]
      split <;> simp
    · simp [hc, Ne.symm hc]

/-- Dots between slashes lead nowhere. -/
theorem foldl_stepFrom_filter (folder names : List String) :
    (names.filter isPart).foldl stepFrom folder =
      (names.filter (· != "")).foldl stepFrom folder := by
  induction names generalizing folder with
  | nil => rfl
  | cons name rest ih =>
    by_cases hempty : name = ""
    · simp [hempty, isPart, ih]
    · by_cases hhere : name = here
      · simp [hhere, isPart, ih, stepFrom, here]
      · have hpart : isPart name = true := by simp [isPart, hempty, hhere]
        simp [hempty, hpart, ih]

/-- The steps of a path lead where its names do. -/
theorem foldl_stepFrom_steps (path : String) (folder : List String) :
    (steps path).foldl stepFrom folder = (ofText path).parts.foldl stepFrom folder := by
  unfold ofText
  rw [foldl_stepFrom_filter]
  unfold steps names
  split
  · rw [List.foldl_append]
    simp [stepFrom]
  · rfl

end Path

namespace FileTree

variable {t t' t'' : FileTree} {names place : List String} {path : String} {e : FileEntry}
  {content : Bytes}

/-! ## Entries -/

theorem lookup_put (t : FileTree) (names other : List String) (e : FileEntry) :
    (t.put names e).entries.lookup other =
      if other = names then some e else t.entries.lookup other := by
  unfold put
  rw [List.lookup_append]
  by_cases h : other = names
  · subst h
    have hnone : (t.entries.filter fun x => x.1 != other).lookup other = none := by
      refine List.lookup_eq_none_iff.mpr fun x hx => ?_
      have hne := (List.mem_filter.mp hx).2
      exact bne_comm.trans hne
    rw [hnone, if_pos rfl, List.lookup_cons_self]
    rfl
  · have hkept : (t.entries.filter fun x => x.1 != names).lookup other =
        t.entries.lookup other := by
      induction t.entries with
      | nil => rfl
      | cons x rest ih =>
        by_cases hx : x.1 = names
        · have hne : other ≠ x.1 := hx ▸ h
          rw [List.filter_cons_of_neg (by simp [hx]), ih, List.lookup_cons, beq_false_of_ne hne]
        · rw [List.filter_cons_of_pos (by simp [hx]), List.lookup_cons, List.lookup_cons, ih]
    rw [hkept, if_neg h, List.lookup_cons, beq_false_of_ne h]
    exact Option.or_none

theorem entry_put (t : FileTree) (names other : List String) (e : FileEntry) :
    FileTree.entry? (t.put names e) other =
      if other.isPrefixOf t.current then some .folder else if other = names then some e
        else t.entry? other := by
  unfold entry?
  rw [lookup_put]
  split <;> simp_all [put]

/-! ## Trees that keep what is there -/

/-- A tree in which all of another is still there, but for files at some places. -/
structure Keeps (places : List (List String)) (t t' : FileTree) : Prop where
  current : t'.current = t.current
  entries : ∀ names e, t.entry? names = some e → e = .folder ∨ names ∉ places →
    t'.entry? names = some e

theorem Keeps.refl (places : List (List String)) (t : FileTree) : Keeps places t t :=
  ⟨rfl, fun _ _ he _ => he⟩

theorem Keeps.trans {places : List (List String)} (h : Keeps places t t')
    (h' : Keeps places t' t'') : Keeps places t t'' := by
  refine ⟨h'.current.trans h.current, fun names e he hsafe => ?_⟩
  apply h'.entries names e _ hsafe
  exact h.entries names e he hsafe

/-- Fewer places, fewer files that may have changed. -/
theorem Keeps.mono {places places' : List (List String)} (h : Keeps places t t')
    (hsub : places ⊆ places') : Keeps places' t t' := by
  refine ⟨h.current, fun names e he hsafe => h.entries names e he ?_⟩
  apply hsafe.imp_right
  intro hnames hmem
  exact hnames (hsub hmem)

/-- What is put at a place without a folder takes the place of a file only. -/
theorem keeps_put (h : t.entry? names ≠ some .folder) (e : FileEntry) :
    Keeps [names] t (t.put names e) := by
  refine ⟨rfl, fun other e' he' hsafe => ?_⟩
  rw [entry_put]
  split
  · rename_i hcurrent
    rwa [ entry?, if_pos hcurrent] at he'
  · have hne : other ≠ names := by
      rintro rfl
      rcases hsafe with rfl | hother
      · exact h he'
      · exact hother (List.mem_singleton.mpr rfl)
    rwa [if_neg hne]

theorem keeps_put_of_none (h : t.entry? names = none) (e : FileEntry) :
    Keeps [] t (t.put names e) := by
  have hput := keeps_put (by rw [h]; exact nofun) e
  refine ⟨rfl, fun other e' he' _ => hput.entries other e' he' (.inr ?_)⟩
  intro hother
  obtain rfl := List.mem_singleton.mp hother
  rw [h] at he'
  cases he'

/-! ## Paths -/

/-- The names that steps lead to are those that are told by the steps alone. -/
theorem eq_foldl_of_walk {folder steps : List String} (h : t.walk folder steps = .ok names) :
    names = steps.foldl Path.stepFrom folder := by
  induction steps generalizing folder with
  | nil => exact (Except.ok.inj h).symm
  | cons step rest ih =>
    unfold walk at h
    split at h
    · split at h
      · cases h
      · exact ih h
    · cases h
    · cases h

/-- A path leads nowhere but to what it is resolved to. -/
theorem resolved_of_namesOf (h : t.namesOf path = .ok names) :
    (Path.ofText path).resolved t.current = names := by
  unfold namesOf at h
  split at h
  · cases h
  · split at h
    · cases h
    · rw [eq_foldl_of_walk h, Path.foldl_stepFrom_steps, Path.resolved, Path.isAbsolute_ofText]
      rfl

section

variable {places : List (List String)} (h : Keeps places t t')

include h

/-- The folders on the way are still there. -/
theorem Keeps.walk {here steps : List String} (hwalk : t.walk here steps = .ok names) :
    t'.walk here steps = .ok names := by
  induction steps generalizing here with
  | nil => exact hwalk
  | cons step rest ih =>
    unfold FileTree.walk at hwalk ⊢
    split at hwalk
    · rename_i hfolder
      rw [h.entries here .folder hfolder (.inl rfl)]
      split at hwalk
      · cases hwalk
      · rename_i hsize
        simp only [if_neg hsize]
        exact ih hwalk
    · cases hwalk
    · cases hwalk

theorem Keeps.start (path : String) : t'.start path = t.start path := by
  unfold FileTree.start
  rw [h.current]

/-- A path leads to where it has led. -/
theorem Keeps.namesOf (hnames : t.namesOf path = .ok names) : t'.namesOf path = .ok names := by
  unfold FileTree.namesOf at hnames ⊢
  rw [h.start]
  split at hnames
  · cases hnames
  · rename_i hsize
    split at hnames
    · cases hnames
    · rename_i hempty
      rw [if_neg hsize, if_neg hempty]
      exact h.walk hnames

end

open String.Pos in
/-- A text whose characters have one byte each and are no slashes is one name. -/
theorem splitOn_of_plain {text : String} {size : Nat}
    (h : ∀ i < size, (Raw.atEnd text ⟨i⟩ = false ∧ (Raw.get text ⟨i⟩ == '/') = false) ∧
      Raw.next text ⟨i⟩ = ⟨i + 1⟩) (hend : Raw.atEnd text ⟨size⟩ = true) :
    text.splitOn "/" = [Raw.extract text 0 ⟨size⟩] := by
  have hslash : Raw.get "/" 0 = '/' := rfl
  have hself (i : Raw) : i.unoffsetBy 0 = i := rfl
  have hsteps : ∀ i ≤ size, text.splitOnAux "/" 0 0 0 [] = text.splitOnAux "/" 0 ⟨i⟩ 0 [] := by
    intro i hi
    induction i with
    | zero => rfl
    | succ i ih =>
      obtain ⟨⟨hin, hother⟩, hnext⟩ := h i hi
      rw [ih (Nat.le_of_succ_le hi), String.splitOnAux, hin, hslash, hother, hself, hnext]
      simp
  rw [String.splitOn, if_neg (by decide), hsteps size (Nat.le_refl size), String.splitOnAux, hend]
  rfl

open String.Pos in
/-- A name, with no slash in it, is a path of its own. -/
theorem ofText_of_plain {name : String} {size : Nat}
    (h : ∀ i < size, (Raw.atEnd name ⟨i⟩ = false ∧ (Raw.get name ⟨i⟩ == '/') = false) ∧
      Raw.next name ⟨i⟩ = ⟨i + 1⟩) (hend : Raw.atEnd name ⟨size⟩ = true)
    (hname : Raw.extract name 0 ⟨size⟩ = name ∧ Path.isPart name = true)
    (hslashes : name.toList.takeWhile (· == '/') = []) : Path.ofText name = ⟨0, [name]⟩ := by
  unfold Path.ofText
  rw [hslashes, splitOn_of_plain h hend, hname.1, List.filter_cons_of_pos hname.2]
  rfl

open String.Pos in
/-- A name, with no slash in it, leads into the current folder. -/
theorem namesOf_of_plain (t : FileTree) {name : String} {size : Nat}
    (h : ∀ i < size, (Raw.atEnd name ⟨i⟩ = false ∧ (Raw.get name ⟨i⟩ == '/') = false) ∧
      Raw.next name ⟨i⟩ = ⟨i + 1⟩) (hend : Raw.atEnd name ⟨size⟩ = true)
    (hname : Raw.extract name 0 ⟨size⟩ = name ∧ name ∉ ["", Path.here, Path.up])
    (hpath : name.startsWith "/" = false ∧ name.endsWith "/" = false ∧
      name.utf8ByteSize ≤ maxNameSize) : t.namesOf name = .ok (t.current ++ [name]) := by
  obtain ⟨hextract, hmeaning⟩ := hname
  obtain ⟨hfront, hback, hsize⟩ := hpath
  simp only [List.mem_cons, List.not_mem_nil, or_false, not_or] at hmeaning
  obtain ⟨hempty, hhere, hup⟩ := hmeaning
  have hsteps : Path.steps name = [name] := by
    unfold Path.steps Path.names
    simp [hback, splitOn_of_plain h hend, hextract, hempty]
  have hstart : t.start name = t.current := by
    unfold start
    simp [hfront]
  have hshort : ¬maxPathSize < name.utf8ByteSize := by
    unfold maxNameSize at hsize
    unfold maxPathSize
    omega
  have hfolder : t.entry? t.current = some .folder := if_pos (by simp)
  unfold namesOf
  rw [if_neg hshort, if_neg (by simpa using hempty), hsteps, hstart]
  simp [walk, hfolder, Nat.not_lt.mpr hsize, Path.stepFrom, hhere, hup]

/-! ## Files -/

/-- The content of a file. -/
def contentOf? : FileEntry → Option Bytes
  | .folder => none
  | .file content => some content

/-- The content of the file under some names. -/
def file? (t : FileTree) (names : List String) : Option Bytes := (t.entry? names).bind contentOf?

theorem file?_of_isPrefixOf (h : names.isPrefixOf t.current = true) : t.file? names = none := by
  rw [file?, entry?, if_pos h]
  rfl

/-- What is put where no folder is changes the file there and no other. -/
theorem file?_put (h : t.entry? names ≠ some .folder) (e : FileEntry) :
    (t.put names e).file? = Function.update t.file? names (contentOf? e) := by
  funext other
  rw [Function.update_apply]
  by_cases hcurrent : other.isPrefixOf t.current = true
  · have hother : other ≠ names := by
      rintro rfl
      exact h (if_pos hcurrent)
    rw [if_neg hother, file?_of_isPrefixOf hcurrent]
    exact file?_of_isPrefixOf (t := t.put names e) hcurrent
  · rw [file?, entry_put, if_neg hcurrent]
    split <;> rfl

theorem file?_put_folder (h : t.entry? names = none) : (t.put names .folder).file? = t.file? := by
  have hnone : t.file? names = none := by
    rw [file?, h]
    rfl
  rw [file?_put (by rw [h]; exact nofun), contentOf?, ← hnone, Function.update_eq_self]

/-! ## Making folders -/

/-- A tree that has more folders than another one at most. -/
structure AddsFolders (t t' : FileTree) : Prop where
  keeps : Keeps [] t t'
  files : t'.file? = t.file?

theorem AddsFolders.refl (t : FileTree) : AddsFolders t t := ⟨.refl [] t, rfl⟩

theorem AddsFolders.trans (h : AddsFolders t t') (h' : AddsFolders t' t'') : AddsFolders t t'' :=
  ⟨h.keeps.trans h'.keeps, h'.files.trans h.files⟩

theorem addsFolders_makeStep {here : List String} {name : String}
    (h : t.makeStep here name = .ok t') : AddsFolders t t' := by
  unfold makeStep at h
  split at h
  · cases h
  · split at h
    · cases h
      exact .refl t
    · cases h
    · rename_i hnone
      cases h
      exact ⟨keeps_put_of_none hnone .folder, file?_put_folder hnone⟩

theorem addsFolders_makeFolder (h : t.makeFolder path = .ok t') : AddsFolders t t' := by
  unfold makeFolder at h
  split at h
  · cases h
  · split at h
    · cases h
    · simp only at h
      split at h
      · cases h
      · exact addsFolders_makeStep h

theorem addsFolders_makeFoldersUpTo {depth : Nat} (h : t.makeFoldersUpTo path depth = .ok t') :
    AddsFolders t t' := by
  induction depth generalizing path t' with
  | zero => exact addsFolders_makeFolder h
  | succ depth ih =>
    unfold makeFoldersUpTo at h
    simp only at h
    split at h
    · exact addsFolders_makeFolder h
    · split at h
      · cases h
      · rename_i outer houter
        split at h
        · cases h
          exact ih houter
        · exact (ih houter).trans (addsFolders_makeFolder h)

/-- Making folders takes nothing out of a tree and adds no file. -/
theorem addsFolders_makeFolders (h : t.makeFolders path = .ok t') : AddsFolders t t' :=
  addsFolders_makeFoldersUpTo h

/-! ## Writing files -/

/-- A tree after a file has been written at a place. -/
structure Written (place : List String) (content : Bytes) (t t' : FileTree) : Prop where
  entry : t'.entry? place = some (.file content)
  keeps : Keeps [place] t t'

theorem exists_of_write? (h : t.write? path content = some t') :
    ∃ place, t'.namesOf path = .ok place ∧ Written place content t t' ∧
      t'.file? = Function.update t.file? place (some content) := by
  unfold write? at h
  split at h
  · cases h
  · rename_i place hplace
    split at h
    · cases h
    · rename_i hfolder
      cases h
      have hkeeps := keeps_put hfolder (.file content)
      have hother : ¬place.isPrefixOf t.current = true := fun h => hfolder (if_pos h)
      refine ⟨place, hkeeps.namesOf hplace, ⟨?_, hkeeps⟩, file?_put hfolder (.file content)⟩
      rw [entry_put, if_neg hother, if_pos rfl]

/-- What has been written is what is found. -/
theorem look_of_write? (h : t.write? path content = some t') : t'.look path = .file content := by
  obtain ⟨place, hnames, hwritten, _⟩ := exists_of_write? h
  simp only [look, hnames, hwritten.entry]

/-- A tree that keeps what is at a path looks the same there. -/
theorem Keeps.look {places : List (List String)} (h : Keeps places t t')
    (hplace : t.namesOf path = .ok place) (he : t.entry? place = some e)
    (hsafe : place ∉ places) : t'.look path = t.look path := by
  simp only [FileTree.look, hplace, h.namesOf hplace, he, h.entries place e he (.inr hsafe)]

end FileTree

end Orchestrion

import Orchestrion.Proofs.Document.Library
import Orchestrion.Proofs.Document.Parser

set_option autoImplicit false

/-!
# What comes of asking for a document

A call for a document gives a mapping or a fault, whatever the parsers are.  Most faults are
explained in a message that names the path.  Some are not, and each of these has a cause that
can be pointed at: a zero character in the path, a path or a name in it that is too long, bytes
that are no text, or a fault that a parser has not reported.
-/

namespace Orchestrion

namespace FileTree

variable {t : FileTree} {here steps : List String} {path : String}

/-- A path that is too long, or has a name that is. -/
def IsLong (path : String) : Prop :=
  maxPathSize < path.utf8ByteSize ∨ ∃ name ∈ Path.steps path, maxNameSize < name.utf8ByteSize

theorem exists_long_of_walk (h : t.walk here steps = .error .tooLong) :
    ∃ name ∈ steps, maxNameSize < name.utf8ByteSize := by
  induction steps generalizing here with
  | nil => cases h
  | cons step rest ih =>
    unfold walk at h
    split at h
    · split at h
      · rename_i hsize
        exact ⟨step, List.mem_cons_self, hsize⟩
      · obtain ⟨name, hname, hsize⟩ := ih h
        exact ⟨name, List.mem_cons_of_mem step hname, hsize⟩
    · cases h
    · cases h

theorem namesOf_of_look (h : t.look path = .tooLong) : t.namesOf path = .error .tooLong := by
  unfold look at h
  split at h
  · assumption
  · cases h
  · split at h <;> cases h

theorem isLong_of_look (h : t.look path = .tooLong) : IsLong path := by
  have hnames := namesOf_of_look h
  unfold namesOf at hnames
  split at hnames
  · rename_i hsize
    exact .inl hsize
  · split at hnames
    · cases hnames
    · exact .inr (exists_long_of_walk hnames)

/-- Nothing is looked for at a path that is too long as a whole. -/
theorem look_of_size (h : maxPathSize < path.utf8ByteSize) : t.look path = .tooLong := by
  unfold look namesOf
  rw [if_pos h]

end FileTree

namespace Document

variable {parsers : Parsers} {path : Path} {state : FileState} {content : Bytes} {text : String}
  {fault : LoadFault}

/-- The text that is found at a path. -/
def Holds (state : FileState) (text : String) : Prop :=
  ∃ content, state = .file content ∧ textOf? content = some text

/-! ## One file -/

/-- The faults that are explained, by their causes. -/
inductive Explained (parsers : Parsers) (path : Path) (state : FileState) : LoadFault → Prop where
  | notFound (h : state = .missing) : Explained parsers path state (.notFound path.text)
  | folder (h : state = .folder) : Explained parsers path state (.folder path.text)
  | badJson (text : String) (htext : Holds state text) (hlanguage : isYaml path = false)
      (h : parsers.json text = .error .malformed) :
      Explained parsers path state (.badJson path.text)
  | badYaml (content : Bytes) (hfile : state = .file content) (hlanguage : isYaml path = true)
      (h : parsers.yaml content = .error .malformed) :
      Explained parsers path state (.badYaml path.text)
  | notMapping (content : Bytes) (v : Value) (hfile : state = .file content)
      (hv : parsers.parse path content = .ok v) (h : ∀ entries, v ≠ .map entries) :
      Explained parsers path state (.notMapping path.text)

/-- The faults that are not explained, by their causes. -/
inductive Escapes (parsers : Parsers) (path : Path) (state : FileState) : LoadFault → Prop where
  | zero (h : '\x00' ∈ path.text.toList) : Escapes parsers path state (.stray .outOfRange)
  | longPath (h : FileTree.IsLong path.text) : Escapes parsers path state .longPath
  | notText (content : Bytes) (hfile : state = .file content) (hlanguage : isYaml path = false)
      (h : ¬IsText content) : Escapes parsers path state (.stray .notText)
  | json (text : String) (fault : StrayFault) (htext : Holds state text)
      (hlanguage : isYaml path = false) (h : parsers.json text = .error (.stray fault)) :
      Escapes parsers path state (.stray fault)
  | yaml (content : Bytes) (fault : StrayFault) (hfile : state = .file content)
      (hlanguage : isYaml path = true) (h : parsers.yaml content = .error (.stray fault)) :
      Escapes parsers path state (.stray fault)

/-- The message of a fault that is explained names the path. -/
theorem Explained.exists_message (h : Explained parsers path state fault) :
    ∃ message, fault.message? = some message ∧ path.text.toList <:+: message.toList := by
  have hend (front : String) : path.text.toList <:+: (front ++ path.text).toList := by
    rw [String.toList_append]
    exact (List.suffix_append ..).isInfix
  have hmid {s : String} (back : String) (hs : path.text.toList <:+: s.toList) :
      path.text.toList <:+: (s ++ back).toList := by
    rw [String.toList_append]
    exact List.infix_append_of_infix_left hs
  cases h with
  | folder => exact ⟨_, rfl, hmid _ (hmid _ (hend _))⟩
  | notMapping => exact ⟨_, rfl, hmid _ (hend _)⟩
  | _ => exact ⟨_, rfl, hend _⟩

theorem Escapes.message?_eq_none (h : Escapes parsers path state fault) : fault.message? = none := by
  cases h <;> rfl

/-- With parsers that report every text that they cannot read, nothing but the path and bytes
that are no text is left as a cause. -/
theorem Escapes.path_or_notText (h : Escapes parsers path state fault)
    (hreport : parsers.ReportTexts) :
    '\x00' ∈ path.text.toList ∨ FileTree.IsLong path.text ∨
      ∃ content, state = .file content ∧ ¬IsText content := by
  cases h with
  | zero h => exact .inl h
  | longPath h => exact .inr (.inl h)
  | notText content hfile _ h => exact .inr (.inr ⟨content, hfile, h⟩)
  | json text fault _ _ h => exact absurd h (hreport.json text fault)
  | yaml content fault hfile _ h =>
    exact .inr (.inr ⟨content, hfile, fun htext => hreport.yaml content fault htext h⟩)

/-- The ways in which the value of a file is read: there is one, or a fault with its cause. -/
theorem parse_cases (parsers : Parsers) (path : Path) (content : Bytes) :
    (∃ v, parsers.parse path content = .ok v) ∨
      ∃ fault, parsers.parse path content = .error fault ∧
        (Explained parsers path (.file content) (.ofParser path fault) ∨
          Escapes parsers path (.file content) (.ofParser path fault)) := by
  cases hlanguage : isYaml path with
  | true =>
    unfold Parsers.parse LoadFault.ofParser
    rw [hlanguage]
    cases hyaml : parsers.yaml content with
    | ok v => exact .inl ⟨_, rfl⟩
    | error fault =>
      refine .inr ⟨fault, rfl, ?_⟩
      cases fault with
      | malformed => exact .inl (.badYaml content rfl hlanguage hyaml)
      | stray fault => exact .inr (.yaml content fault rfl hlanguage hyaml)
  | false =>
    unfold Parsers.parse LoadFault.ofParser
    rw [hlanguage]
    cases htext : textOf? content with
    | none =>
      have hnot : ¬IsText content := textOf?_eq_none_iff.mp htext
      exact .inr ⟨_, rfl, .inr (.notText content rfl hlanguage hnot)⟩
    | some text =>
      have htext : Holds (.file content) text := ⟨content, rfl, htext⟩
      cases hjson : parsers.json text with
      | ok v => exact .inl ⟨v, hjson⟩
      | error fault =>
        refine .inr ⟨fault, hjson, ?_⟩
        cases fault with
        | malformed => exact .inl (.badJson text htext hlanguage hjson)
        | stray fault => exact .inr (.json text fault htext hlanguage hjson)

theorem ofFile_of_zero (h : '\x00' ∈ path.text.toList) (state : FileState) :
    ofFile parsers path state = .error (.stray .outOfRange) := by
  have hzero : hasZero path = true := by
    rw [hasZero_eq]
    exact decide_eq_true h
  unfold ofFile
  rw [if_pos hzero]

theorem hasZero_eq_false (h : '\x00' ∉ path.text.toList) : hasZero path = false := by
  rw [hasZero_eq]
  exact decide_eq_false h

/-- A file gives what its parser gives, unless that is no mapping. -/
theorem ofFile_of_parse (hzero : hasZero path = false) :
    (∀ fault, parsers.parse path content = .error fault →
        ofFile parsers path (.file content) = .error (.ofParser path fault)) ∧
      (∀ entries, parsers.parse path content = .ok (.map entries) →
        ofFile parsers path (.file content) = .ok (.map entries)) ∧
      ∀ v, parsers.parse path content = .ok v → (∀ entries, v ≠ .map entries) →
        ofFile parsers path (.file content) = .error (.notMapping path.text) := by
  refine ⟨fun fault h => ?_, fun entries h => ?_, fun v h hv => ?_⟩
  · simp [ofFile, hzero, h]
  · simp [ofFile, hzero, h]
  · cases v with
    | map entries => exact absurd rfl (hv entries)
    | _ => simp [ofFile, hzero, h]

/-- The ways in which a file is read: it gives a mapping, or a fault with its cause. -/
theorem ofFile_cases (parsers : Parsers) (path : Path) (state : FileState)
    (hlong : state = .tooLong → FileTree.IsLong path.text) :
    (∃ entries, ofFile parsers path state = .ok (.map entries)) ∨
      ∃ fault, ofFile parsers path state = .error fault ∧
        (Explained parsers path state fault ∨ Escapes parsers path state fault) := by
  by_cases hzero : '\x00' ∈ path.text.toList
  · exact .inr ⟨_, ofFile_of_zero hzero state, .inr (.zero hzero)⟩
  · have hzero := hasZero_eq_false hzero
    cases state with
    | missing => exact .inr ⟨_, by simp [ofFile, hzero], .inl (.notFound rfl)⟩
    | folder => exact .inr ⟨_, by simp [ofFile, hzero], .inl (.folder rfl)⟩
    | tooLong => exact .inr ⟨_, by simp [ofFile, hzero], .inr (.longPath (hlong rfl))⟩
    | file content =>
      obtain ⟨herror, hmap, hother⟩ := @ofFile_of_parse parsers path content hzero
      obtain ⟨v, hv⟩ | ⟨fault, hfault, hcause⟩ := parse_cases parsers path content
      · cases v with
        | map entries => exact .inl ⟨entries, hmap entries hv⟩
        | _ =>
          refine .inr ⟨_, hother _ hv ?_, .inl (.notMapping content _ rfl hv ?_)⟩ <;>
            rintro entries ⟨⟩
      · exact .inr ⟨_, herror fault hfault, hcause⟩

/-- Bytes that are no text are not given to the parser of JSON. -/
theorem ofFile_of_not_isText (hzero : hasZero path = false) (hlanguage : isYaml path = false)
    (h : ¬IsText content) : ofFile parsers path (.file content) = .error (.stray .notText) := by
  have hparse : parsers.parse path content = .error (.stray .notText) := by
    unfold Parsers.parse
    rw [hlanguage, textOf?_eq_none_iff.mpr h]
    rfl
  exact (ofFile_of_parse hzero).1 _ hparse

/-- What a file gives is a mapping. -/
theorem exists_map_of_ofFile {v : Value} (h : ofFile parsers path state = .ok v) :
    ∃ entries, v = .map entries := by
  have hlong : state = .tooLong → FileTree.IsLong path.text := by
    rintro rfl
    unfold ofFile at h
    split at h <;> cases h
  obtain ⟨entries, hmap⟩ | ⟨fault, hfault, -⟩ := ofFile_cases parsers path state hlong
  · exact ⟨entries, Except.ok.inj (h.symm.trans hmap)⟩
  · rw [hfault] at h
    cases h

/-! ## A library -/

namespace Library

variable {lib : Library} {files : FileTree}

/-- A library that keeps mappings only. -/
def HasMappings (lib : Library) : Prop := ∀ v ∈ lib.volumes, ∃ entries, v.document = .map entries

theorem HasMappings.document (h : lib.HasMappings) (files : FileTree) (p : Path) :
    (lib.document files p).2.HasMappings := by
  obtain ⟨v, -, hdocument⟩ | ⟨fault, -, -, hdocument⟩ |
      ⟨v, lib', -, hfile, -, hvolumes, -, hdocument⟩ := lib.document_cases files p
  · rw [hdocument]
    exact h
  · rw [hdocument]
    exact h
  · rw [hdocument]
    intro w hw
    rw [hvolumes] at hw
    rcases List.mem_cons.mp hw with rfl | hw
    · exact exists_map_of_ofFile hfile
    · exact h w hw

theorem HasMappings.read (h : lib.HasMappings) {v : Volume}
    (hv : lib.find? files.current path = some v) : ∃ entries, lib.read files path = .ok (.map entries) := by
  have hmem : v ∈ lib.volumes := by
    unfold find? at hv
    split at hv
    · cases hv
    · exact List.mem_of_find?_eq_some hv
  obtain ⟨entries, hentries⟩ := h v hmem
  refine ⟨entries, read_eq_ok_iff.mpr ⟨v, ?_, hentries⟩⟩
  rw [document_of_find? hv]

/-- What a library that keeps mappings only gives: a mapping, or a fault that is explained in a
message, or one that is not. -/
theorem HasMappings.read_cases (h : lib.HasMappings) (files : FileTree) (path : Path) :
    let state := files.look path.text
    (∃ entries, lib.read files path = .ok (.map entries)) ∨
      (∃ fault message, lib.read files path = .error fault ∧
        Explained lib.parsers path state fault ∧ fault.message? = some message ∧
        path.text.toList <:+: message.toList) ∨
      ∃ fault, lib.read files path = .error fault ∧
        Escapes lib.parsers path state fault ∧ fault.message? = none := by
  intro state
  cases hfind : lib.find? files.current path with
  | some v => exact .inl (h.read hfind)
  | none =>
    rw [read_of_find?_eq_none hfind]
    obtain ⟨entries, hmap⟩ | ⟨fault, hfault, hexplained | hescapes⟩ :=
      ofFile_cases lib.parsers path state FileTree.isLong_of_look
    · exact .inl ⟨entries, hmap⟩
    · obtain ⟨message, hmessage, hpath⟩ := hexplained.exists_message
      exact .inr (.inl ⟨fault, message, hfault, hexplained, hmessage, hpath⟩)
    · exact .inr (.inr ⟨fault, hfault, hescapes, hescapes.message?_eq_none⟩)

/-- A path with a zero character has no key, so nothing is kept for it. -/
theorem read_of_zero (lib : Library) (files : FileTree) (h : '\x00' ∈ path.text.toList) :
    lib.read files path = .error (.stray .outOfRange) := by
  have hkey : keyOf? files.current path = none := by
    rw [keyOf?, hasZero_eq, if_pos (decide_eq_true h)]
  have hfind : lib.find? files.current path = none := by
    rw [find?_eq, hkey, Option.bind_none]
  rw [read_of_find?_eq_none hfind, ofFile_of_zero h]

end Library

namespace Shelf

theorem hasMappings_step {s : Shelf} (h : s.library.HasMappings) (a : Act) :
    (s.step a).library.HasMappings := by
  cases hasked : a.asked? with
  | some p =>
    rw [s.library_step_of_asked hasked]
    exact h.document s.files p
  | none =>
    by_cases hclear : a = .clear
    · subst hclear
      exact nofun
    · rw [s.library_step_of_asked_eq_none hasked hclear]
      exact h

/-- Whatever is done to a library, it keeps mappings only. -/
theorem hasMappings_run {s : Shelf} (h : s.library.HasMappings) (acts : List Act) :
    (s.run acts).library.HasMappings := by
  induction acts generalizing s with
  | nil => exact h
  | cons a acts ih => exact ih (hasMappings_step h a)

/-- A library after any acts, that had read nothing before them, and what it gives for a path,
whatever its parsers are.

* It gives a mapping, or a fault that is explained in a message with the path, or a fault that
  is not explained, of which the cause stands in the path or in the file, or is one that a
  parser has not reported.
* A zero character in the path is a fault of the latter kind, whatever the library keeps.  If
  it keeps nothing for the path, so are a path that is too long as a whole and a file in JSON
  that is no text.
* With parsers that report every text that is not written in their language, the cause of a
  fault that is not explained is in the path, or it is that the file is no text. -/
theorem document_ends (parsers : Parsers) (limit : Option Int) (files : FileTree)
    (acts : List Act) (path : Path) :
    let s := (new parsers limit files).run acts
    let state := s.files.look path.text
    ((∃ entries, s.library.read s.files path = .ok (.map entries)) ∨
      (∃ fault message, s.library.read s.files path = .error fault ∧
        Explained parsers path state fault ∧ fault.message? = some message ∧
        path.text.toList <:+: message.toList) ∨
      ∃ fault, s.library.read s.files path = .error fault ∧
        Escapes parsers path state fault ∧ fault.message? = none) ∧
    ('\x00' ∈ path.text.toList → s.library.read s.files path = .error (.stray .outOfRange)) ∧
    ('\x00' ∉ path.text.toList → s.library.find? s.files.current path = none →
      (FileTree.maxPathSize < path.text.utf8ByteSize →
        s.library.read s.files path = .error .longPath) ∧
      ∀ content, state = .file content → isYaml path = false → ¬IsText content →
        s.library.read s.files path = .error (.stray .notText)) ∧
    (parsers.ReportTexts → ∀ fault, s.library.read s.files path = .error fault →
      fault.message? = none →
      '\x00' ∈ path.text.toList ∨ FileTree.IsLong path.text ∨
        ∃ content, state = .file content ∧ ¬IsText content) := by
  intro s state
  have hparsers : s.library.parsers = parsers := (new parsers limit files).parsers_run acts
  have hmappings : s.library.HasMappings := hasMappings_run (s := new parsers limit files) nofun acts
  have hcases := hmappings.read_cases s.files path
  rw [hparsers] at hcases
  refine ⟨hcases, s.library.read_of_zero s.files, ?_, ?_⟩
  · intro hzero hfind
    have hzero := hasZero_eq_false hzero
    rw [Library.read_of_find?_eq_none hfind, hparsers]
    constructor
    · intro hsize
      have hstate : s.files.look path.text = .tooLong := FileTree.look_of_size hsize
      simp [ofFile, hzero, hstate]
    · intro content hfile hlanguage hnot
      change s.files.look path.text = .file content at hfile
      rw [hfile]
      exact ofFile_of_not_isText hzero hlanguage hnot
  · intro hreport fault hfault hmessage
    obtain ⟨entries, hmap⟩ | ⟨_, message, hread, -, hnamed, -⟩ | ⟨_, hread, hescapes, -⟩ := hcases
    · cases hfault.symm.trans hmap
    · cases hfault.symm.trans hread
      rw [hmessage] at hnamed
      cases hnamed
    · cases hfault.symm.trans hread
      exact hescapes.path_or_notText hreport

/-- A folder with one file. -/
def oneFile (content : Bytes) : FileTree := ⟨["w"], [(["w", "a.json"], .file content)]⟩

/-- The path of that file. -/
def onePath : Path := ⟨0, ["a.json"]⟩

theorem look_oneFile (content : Bytes) : (oneFile content).look onePath.text = .file content := by
  have hnames : (oneFile content).namesOf "a.json" = .ok ["w", "a.json"] :=
    (oneFile content).namesOf_of_plain (by decide +kernel : ∀ i < 6, _) (by decide +kernel)
      (by decide +kernel) (by decide +kernel)
  have htext : onePath.text = "a.json" := rfl
  rw [htext, FileTree.look, hnames]
  rfl

/-- A document in which a string has a byte that begins no character. -/
def brokenText : Bytes := Bytes.ofAscii "\x7b\"a\":\"" ++ [0xff] ++ Bytes.ofAscii "\"\x7d"

theorem not_isText_brokenText : ¬IsText brokenText := by
  rw [isText_iff_isValidUTF8]
  decide +kernel

/-- Parsers that report everything that they cannot read. -/
def reporting : Parsers where
  json text := (Json.parse text).mapError fun _ => .malformed
  yaml content := (Yaml.parse content).mapError fun _ => .malformed

theorem reportTexts_reporting : reporting.ReportTexts where
  json text fault := by
    simp only [reporting]
    cases Json.parse text <;> rintro ⟨⟩
  yaml content fault _ := by
    simp only [reporting]
    cases Yaml.parse content <;> rintro ⟨⟩

theorem document_ends_notText :
    let s := new reporting none (oneFile brokenText)
    reporting.ReportTexts ∧ '\x00' ∉ onePath.text.toList ∧
      s.library.find? s.files.current onePath = none ∧
      s.files.look onePath.text = .file brokenText ∧
      s.library.read s.files onePath = .error (.stray .notText) ∧
      ('\x00' ∈ onePath.text.toList ∨ FileTree.IsLong onePath.text ∨
        ∃ content, s.files.look onePath.text = .file content ∧ ¬IsText content) := by
  intro s
  have hzero : '\x00' ∉ onePath.text.toList := by decide
  have hfind : s.library.find? s.files.current onePath = none :=
    Library.find?_of_volumes_eq_nil _ rfl _ _
  have hlook : s.files.look onePath.text = .file brokenText := look_oneFile brokenText
  have hlanguage : isYaml onePath = false := by decide
  obtain ⟨-, -, hends, hreports⟩ :=
    document_ends reporting none (oneFile brokenText) [] onePath
  obtain ⟨-, hfile⟩ := hends hzero hfind
  have hread := hfile brokenText hlook hlanguage not_isText_brokenText
  exact ⟨reportTexts_reporting, hzero, hfind, hlook, hread,
    hreports reportTexts_reporting _ hread rfl⟩

/-- However good its parsers are, a library does not explain every fault. -/
theorem document_of_brokenText :
    ¬∃ parsers : Parsers, ∀ (limit : Option Int) (files : FileTree) (acts : List Act) (path : Path),
      let s := (new parsers limit files).run acts
      (∃ entries, s.library.read s.files path = .ok (.map entries)) ∨
        ∃ fault message, s.library.read s.files path = .error fault ∧
          fault.message? = some message := by
  rintro ⟨parsers, h⟩
  let s := new parsers none (oneFile brokenText)
  have hlook : s.files.look onePath.text = .file brokenText := look_oneFile brokenText
  have hread : s.library.read s.files onePath = .error (.stray .notText) := by
    rw [Library.read_of_find?_eq_none (Library.find?_of_volumes_eq_nil _ rfl _ _), hlook]
    exact ofFile_of_not_isText (hasZero_eq_false (by decide)) (by decide) not_isText_brokenText
  obtain ⟨entries, hmap⟩ | ⟨fault, message, hfault, hmessage⟩ :=
    h none (oneFile brokenText) [] onePath
  · cases hread.symm.trans hmap
  · cases hread.symm.trans hfault
    cases hmessage

end Shelf

end Document
end Orchestrion

import Orchestrion.CommandLine.Program
import Orchestrion.Proofs.Files.Tree
import Orchestrion.Proofs.Mix.Outputs

set_option autoImplicit false

/-!
# What becomes of the outputs

The outputs are rendered and saved in turn, each with the clips as they are found then.
A turn writes one file and takes nothing else out of the tree, so the file of an output
holds its own samples in the end unless the file of a later output is in the same place.
In the same way an output loses its samples in the table of all outputs to a later one of
its name only.
-/

namespace Orchestrion.CommandLine

open FileTree (Keeps Written)

/-! ## Audio files -/

section

variable {audio : AudioLibrary} {t t' : FileTree} {path : String} {place : List String}
  {e : FileEntry}

/-- The names that the path of an audio file leads to. -/
def audioPlace? (audio : AudioLibrary) (t : FileTree) (path : String) : Option (List String) :=
  (audio.opens path).bind fun opened => (t.namesOf opened).toOption

/-- What is found at the path of an audio file. -/
def lookAudio (audio : AudioLibrary) (t : FileTree) (path : String) : FileState :=
  match audio.opens path with
  | none => .tooLong
  | some opened => t.look opened

theorem audioPlace?_eq_some_iff : audioPlace? audio t path = some place ↔
    ∃ opened, audio.opens path = some opened ∧ t.namesOf opened = .ok place := by
  have hok (opened : String) :
      (t.namesOf opened).toOption = some place ↔ t.namesOf opened = .ok place := by
    cases t.namesOf opened <;> simp [Except.toOption]
  unfold audioPlace?
  simp only [Option.bind_eq_some_iff, hok]

theorem audioPlace?_of_keeps {places : List (List String)} (h : Keeps places t t')
    (hplace : audioPlace? audio t path = some place) : audioPlace? audio t' path = some place := by
  obtain ⟨opened, hopened, hnames⟩ := audioPlace?_eq_some_iff.mp hplace
  exact audioPlace?_eq_some_iff.mpr ⟨opened, hopened, h.namesOf hnames⟩

theorem lookAudio_of_keeps {places : List (List String)} (h : Keeps places t t')
    (hplace : audioPlace? audio t path = some place) (he : t.entry? place = some e)
    (hsafe : place ∉ places) : lookAudio audio t' path = lookAudio audio t path := by
  obtain ⟨opened, hopened, hnames⟩ := audioPlace?_eq_some_iff.mp hplace
  simp only [lookAudio, hopened]
  exact h.look hnames he hsafe

end

/-! ## Following the parts of a script -/

namespace Script

namespace Outcome

/-- How a script has ended. -/
def ending (o : Outcome) : Option Failure × FileTree := (o.failure, o.tree)

theorem ending_eq_iff {o : Outcome} {failure : Option Failure} {tree : FileTree} :
    o.ending = (failure, tree) ↔ o.failure = failure ∧ o.tree = tree := Prod.mk_inj

/-- Whether a script went through to its end; at most, a line could not be told. -/
def IsThrough (o : Outcome) : Prop := ∀ failure, o.failure = some failure → failure = .untold

variable {o o' : Outcome} (h : o.ending = o'.ending)

include h

theorem tree_of_ending : o.tree = o'.tree := congrArg Prod.snd h

theorem IsThrough.of_ending (ho : o.IsThrough) : o'.IsThrough := by
  have hfailure : o.failure = o'.failure := congrArg Prod.fst h
  unfold IsThrough
  rwa [← hfailure]

end Outcome

variable (audio : AudioLibrary) (terminal : Terminal) (next : Script) (tree : FileTree)

theorem ending_warnAll (ws : List Warning) :
    ((warnAll ws next).follow tree).ending = (next.follow tree).ending := by
  induction ws with
  | nil => rfl
  | cons w rest ih => exact ih

theorem tree_follow_tellAll (texts : List String) :
    ((tellAll terminal texts .done).follow tree).tree = tree := by
  induction texts with
  | nil => rfl
  | cons text rest ih =>
    rw [tellAll, List.foldr_cons, ← tellAll, tell]
    split
    · exact ih
    · rfl

theorem isThrough_tellAll (texts : List String) :
    ((tellAll terminal texts .done).follow tree).IsThrough := by
  induction texts with
  | nil => exact fun failure hfailure => by cases hfailure
  | cons text rest ih =>
    rw [tellAll, List.foldr_cons, ← tellAll, tell]
    split
    · exact ih
    · exact fun failure hfailure => (Option.some.inj hfailure).symm

theorem follow_lookAll (found : List (String × FileState))
    (next : List (String × FileState) → Script) (paths : List String) :
    (lookAll audio found next paths).follow tree =
      (next (found.reverse ++ paths.map fun path => (path, lookAudio audio tree path))).follow
        tree := by
  induction paths generalizing found with
  | nil => rw [lookAll, List.map_nil, List.append_nil]
  | cons path rest ih =>
    have hfound (state : FileState) (more : List (String × FileState)) :
        ((path, state) :: found).reverse ++ more = found.reverse ++ (path, state) :: more := by
      rw [List.reverse_cons, List.append_assoc, List.singleton_append]
    unfold lookAll
    rw [List.map_cons]
    split
    · rename_i hnone
      rw [ih, hfound, lookAudio, hnone]
    · rename_i opened hopened
      rw [follow, ih, hfound, lookAudio, hopened]

end Script

open Script (Outcome)

variable {platform : Platform} {audio : AudioLibrary} {s : Session Float} {notes : List Note}
  {outputDir : Option String} {rack : List (Bank Float)} {tree tree' : FileTree}

/-! ## Saving an output -/

/-- Saves an output in a folder that is there. -/
def saveFile (audio : AudioLibrary) (path : String) (rate : Int) (samples : List Int)
    (next : Script) : Script :=
  match audio.write path rate samples with
  | .refused fault => .fail (.output path fault)
  | .whole content =>
    .writeAudio audio path content fun isWritten =>
      if isWritten then next else .fail (.output path .reported)
  | .abandoned content fault =>
    .writeAudio audio path content fun isWritten =>
      .fail (.output path (if isWritten then fault else .reported))

theorem save_eq (audio : AudioLibrary) (path : String) (rate : Int) (samples : List Int)
    (next : Script) :
    save audio path rate samples next =
      if (Path.folderText path).isEmpty then saveFile audio path rate samples next
      else .makeFolders (Path.folderText path) fun
        | .ok () => saveFile audio path rate samples next
        | .error fault => .fail (.folder fault) := by
  unfold save saveFile
  -- what is matched on is not to be computed
  generalize audio.write path rate samples = written
  generalize Path.folderText path = folder
  rfl

/-- Whether a failure is one of saving an output. -/
def Failure.isOfSave : Failure → Bool
  | .folder _ | .output _ _ => true
  | _ => false

/-- A file has been saved: it is in the place that its path leads to, and all else is as it
was, but for folders that have been made. -/
structure Saved (audio : AudioLibrary) (path : String) (content : Bytes) (place : List String)
    (tree tree' : FileTree) : Prop where
  leads : audioPlace? audio tree' path = some place
  written : Written place content tree tree'
  files : tree'.file? = Function.update tree.file? place (some content)

/-- A tree in which no file has changed but that of a path. -/
def Spares (audio : AudioLibrary) (path : String) (tree tree' : FileTree) : Prop :=
  ∀ names, audioPlace? audio tree' path = some names ∨ tree'.file? names = tree.file? names

theorem Spares.refl (audio : AudioLibrary) (path : String) (tree : FileTree) :
    Spares audio path tree tree :=
  fun _ => .inr rfl

section

variable {path : String} {rate : Int} {samples : List Int} {next : Script} {content : Bytes}
  {place : List String} {tree₁ : FileTree}

theorem Saved.spares (h : Saved audio path content place tree tree') :
    Spares audio path tree tree' := by
  intro names
  by_cases hnames : names = place
  · left
    rw [hnames]
    exact h.leads
  · right
    rw [h.files, Function.update_of_ne hnames]

/-- Folders that are made for a file make no difference. -/
theorem Saved.of_addsFolders (h : Saved audio path content place tree₁ tree')
    (hadds : FileTree.AddsFolders tree tree₁) : Saved audio path content place tree tree' := by
  have hkeeps := hadds.keeps.mono (List.nil_subset [place])
  refine ⟨h.leads, ⟨h.written.entry, hkeeps.trans h.written.keeps⟩, ?_⟩
  rw [h.files, hadds.files]

theorem Spares.of_addsFolders (h : Spares audio path tree₁ tree')
    (hadds : FileTree.AddsFolders tree tree₁) : Spares audio path tree tree' := by
  intro names
  rw [← hadds.files]
  exact h names

theorem not_isThrough_fail {failure : Failure} (h : failure ≠ .untold) :
    ¬((Script.fail failure).follow tree).IsThrough := by
  intro hthrough
  apply h
  exact hthrough failure rfl

/-- Writing an audio file either stores it or changes nothing. -/
theorem writeAudio_cases (audio : AudioLibrary) (path : String) (content : Bytes)
    (tree : FileTree) :
    (∃ place tree', Saved audio path content place tree tree' ∧
      ∀ next, (Script.writeAudio audio path content next).follow tree =
        (next true).follow tree') ∨
    ∀ next, (Script.writeAudio audio path content next).follow tree =
      (next false).follow tree := by
  unfold Script.writeAudio
  cases hopened : audio.opens path with
  | none => exact .inr fun next => rfl
  | some opened =>
    simp only [Script.follow]
    cases hwrite : tree.write? opened content with
    | none => exact .inr fun next => rfl
    | some tree' =>
      obtain ⟨place, hplace, hwritten, hfiles⟩ := FileTree.exists_of_write? hwrite
      have hleads := audioPlace?_eq_some_iff.mpr ⟨opened, hopened, hplace⟩
      exact .inl ⟨place, tree', ⟨hleads, hwritten, hfiles⟩, fun next => rfl⟩

theorem saveFile_cases (audio : AudioLibrary) (path : String) (rate : Int) (samples : List Int)
    (tree : FileTree) :
    (∃ content place tree', audio.write path rate samples = .whole content ∧
      Saved audio path content place tree tree' ∧
      ∀ next, (saveFile audio path rate samples next).follow tree = next.follow tree') ∨
    ∃ failure tree', failure.isOfSave = true ∧ Spares audio path tree tree' ∧
      ∀ next, (saveFile audio path rate samples next).follow tree =
        (Script.fail failure).follow tree' := by
  unfold saveFile
  cases hwrite : audio.write path rate samples with
  | refused fault =>
    exact .inr ⟨.output path fault, tree, rfl, .refl audio path tree, fun next => rfl⟩
  | whole content =>
    rcases writeAudio_cases audio path content tree with ⟨place, tree', hsaved, hfollow⟩ | hfollow
    · exact .inl ⟨content, place, tree', rfl, hsaved, fun next => hfollow _⟩
    · exact .inr ⟨.output path .reported, tree, rfl, .refl audio path tree, fun next => hfollow _⟩
  | abandoned content fault =>
    right
    -- what has been begun is left behind
    rcases writeAudio_cases audio path content tree with ⟨place, tree', hsaved, hfollow⟩ | hfollow
    · exact ⟨.output path fault, tree', rfl, hsaved.spares, fun next => hfollow _⟩
    · exact ⟨.output path .reported, tree, rfl, .refl audio path tree, fun next => hfollow _⟩

/-- An output is saved, or it fails without a change to the file of another path; what comes
next makes no difference to that. -/
theorem save_cases (audio : AudioLibrary) (path : String) (rate : Int) (samples : List Int)
    (tree : FileTree) :
    (∃ content place tree', audio.write path rate samples = .whole content ∧
      Saved audio path content place tree tree' ∧
      ∀ next, (save audio path rate samples next).follow tree = next.follow tree') ∨
    ∃ failure tree', failure.isOfSave = true ∧ Spares audio path tree tree' ∧
      ∀ next, (save audio path rate samples next).follow tree =
        (Script.fail failure).follow tree' := by
  simp only [save_eq]
  generalize Path.folderText path = folder
  by_cases hempty : folder.isEmpty
  · simp only [if_pos hempty]
    exact saveFile_cases audio path rate samples tree
  · simp only [if_neg hempty, Script.follow]
    cases hfolders : tree.makeFolders folder with
    | error fault =>
      exact .inr ⟨.folder fault, tree, rfl, .refl audio path tree, fun next => rfl⟩
    | ok tree₁ =>
      have hadds := FileTree.addsFolders_makeFolders hfolders
      rcases saveFile_cases audio path rate samples tree₁ with
        ⟨content, place, tree', hwhole, hsaved, hfollow⟩ |
          ⟨failure, tree', hfailure, hspares, hfollow⟩
      · exact .inl ⟨content, place, tree', hwhole, hsaved.of_addsFolders hadds, hfollow⟩
      · exact .inr ⟨failure, tree', hfailure, hspares.of_addsFolders hadds, hfollow⟩

theorem follow_save {opened : String} (hfolder : Path.folderText path = "")
    (hwhole : audio.write path rate samples = .whole content)
    (hopened : audio.opens path = some opened) (hwrite : tree.write? opened content = some tree') :
    (save audio path rate samples next).follow tree = next.follow tree' := by
  rw [save_eq, hfolder]
  unfold saveFile
  simp [hwhole, Script.writeAudio, hopened, Script.follow, hwrite]

/-- An output that has been saved is where its path leads. -/
theorem exists_of_save (h : ((save audio path rate samples next).follow tree).IsThrough) :
    ∃ content place tree', audio.write path rate samples = .whole content ∧
      audioPlace? audio tree' path = some place ∧ Written place content tree tree' ∧
      (save audio path rate samples next).follow tree = next.follow tree' := by
  rcases save_cases audio path rate samples tree with
    ⟨content, place, tree', hwhole, hsaved, hfollow⟩ | ⟨failure, tree', hfailure, _, hfollow⟩
  · exact ⟨content, place, tree', hwhole, hsaved.leads, hsaved.written, hfollow next⟩
  · rw [hfollow next] at h
    have huntold : failure ≠ .untold := by
      rintro rfl
      cases hfailure
    exact absurd h (not_isThrough_fail huntold)

end

/-! ## Turns -/

/-- The turn of an output. -/
structure Turn where
  /-- the files as they were found -/
  tree : FileTree
  take : Take Float
  /-- what its file holds -/
  content : Bytes
  /-- where its file is -/
  place : List String

/-- The files of the clips of an arrangement. -/
def clipFiles (audio : AudioLibrary) (a : Arrangement Float) (tree : FileTree) :
    List (String × FileState) :=
  (clipPaths a).map fun path => (path, lookAudio audio tree path)

/-- A session with the clips in a tree. -/
def finding (audio : AudioLibrary) (s : Session Float) (tree : FileTree) : Session Float :=
  { s with load := clipsIn audio (clipFiles audio s.arrangement tree) }

/-- Turns that are taken one after the other, from some banks and a tree to another tree. -/
inductive Renders (audio : AudioLibrary) (s : Session Float) (notes : List Note)
    (outputDir : Option String) :
    List (Bank Float) → FileTree → List Turn → FileTree → Prop
  | nil (rack : List (Bank Float)) (tree : FileTree) :
    Renders audio s notes outputDir rack tree [] tree
  | cons {rack : List (Bank Float)} {tree tree₁ tree' : FileTree} {take : Take Float}
    {st : Stage Float} {content : Bytes} {place : List String} {turns : List Turn}
    (rendered : (finding audio s tree).renderBus notes take.bus (.ofRack rack) = (.ok take, st))
    (whole : audio.write (outputPath outputDir take.bus) s.sampleRate take.samples.toList =
      .whole content)
    (leads : audioPlace? audio tree₁ (outputPath outputDir take.bus) = some place)
    (written : Written place content tree tree₁)
    (rest : Renders audio s notes outputDir st.rack tree₁ turns tree') :
    Renders audio s notes outputDir rack tree (⟨tree, take, content, place⟩ :: turns) tree'

/-- The turn of an output: it is rendered with the clips in the tree, and saved. -/
theorem ending_renderFrom (platform : Platform) (s : Session Float) (notes : List Note)
    (outputDir : Option String) (rack : List (Bank Float)) (tree : FileTree)
    (written : List String) (bus : OutputBus) (rest : List OutputBus) :
    ((renderFrom platform s notes outputDir rack written (bus :: rest)).follow tree).ending =
      (match (finding platform.audio s tree).renderBus notes bus (.ofRack rack) with
      | (.error fault, _) =>
        (Script.fail (failureOf platform.audio (clipFiles platform.audio s.arrangement tree)
          fault)).follow tree
      | (.ok take, st) =>
        (save platform.audio (outputPath outputDir bus) s.sampleRate take.samples.toList
          (renderFrom platform s notes outputDir st.rack (outputPath outputDir bus :: written)
            rest)).follow tree).ending := by
  rw [renderFrom, Script.follow_lookAll, List.reverse_nil, List.nil_append]
  have hfiles : ((clipPaths s.arrangement).map fun path =>
      (path, lookAudio platform.audio tree path)) = clipFiles platform.audio s.arrangement tree :=
    rfl
  simp only [hfiles, Script.ending_warnAll]
  rw [← finding]
  rcases (finding platform.audio s tree).renderBus notes bus (.ofRack rack) with
    ⟨fault | take, st⟩ <;> rfl

theorem failureOf_ne_untold (audio : AudioLibrary) (files : List (String × FileState))
    (fault : Fault) : failureOf audio files fault ≠ .untold := by
  unfold failureOf
  repeat' split
  all_goals exact nofun

/-- What went through is turns of the outputs. -/
theorem exists_renders {written : List String} {buses : List OutputBus}
    (h : ((renderFrom platform s notes outputDir rack written buses).follow tree).IsThrough) :
    ∃ turns, turns.map (fun turn => turn.take.bus) = buses ∧
      Renders platform.audio s notes outputDir rack tree turns
        ((renderFrom platform s notes outputDir rack written buses).follow tree).tree := by
  induction buses generalizing rack tree written with
  | nil =>
    refine ⟨[], rfl, ?_⟩
    rw [renderFrom, Script.tree_follow_tellAll]
    exact .nil rack tree
  | cons bus rest ih =>
    have hending := ending_renderFrom platform s notes outputDir rack tree written bus rest
    rcases hrendered : (finding platform.audio s tree).renderBus notes bus (.ofRack rack) with
      ⟨fault | take, st⟩
    · rw [hrendered] at hending
      have huntold := failureOf_ne_untold platform.audio
        (clipFiles platform.audio s.arrangement tree) fault
      exact absurd (h.of_ending hending) (not_isThrough_fail huntold)
    · obtain rfl : take.bus = bus := Session.bus_of_renderBus (congrArg Prod.fst hrendered)
      rw [hrendered] at hending
      have hthrough := h.of_ending hending
      rw [Outcome.tree_of_ending hending]
      obtain ⟨content, place, tree₁, hwhole, hplace, hwritten, hnext⟩ := exists_of_save hthrough
      simp only [hnext] at hthrough ⊢
      obtain ⟨turns, hturns, hrest⟩ := ih hthrough
      exact ⟨⟨tree, take, content, place⟩ :: turns, by rw [List.map_cons, hturns],
        .cons hrendered hwhole hplace hwritten hrest⟩

/-! ## What the turns leave behind -/

namespace Renders

variable {turns : List Turn}

/-- The turns take nothing out of the tree but what is in the places of their files. -/
theorem keeps (h : Renders audio s notes outputDir rack tree turns tree') :
    Keeps (turns.map Turn.place) tree tree' := by
  induction h with
  | nil rack tree => exact .refl [] tree
  | cons _ _ _ written _ ih =>
    refine (written.keeps.mono ?_).trans (ih.mono (List.subset_cons_self _ _))
    exact List.cons_subset_cons _ (List.nil_subset _)

/-- A file holds what the library writes for the samples of its turn.  In the end every path
leads to where its file was written, and the file is there unless a later one is. -/
theorem entry (h : Renders audio s notes outputDir rack tree turns tree') {front back : List Turn}
    {turn : Turn} (hturns : turns = front ++ turn :: back) :
    audio.write (outputPath outputDir turn.take.bus) s.sampleRate turn.take.samples.toList =
        .whole turn.content ∧
      audioPlace? audio tree' (outputPath outputDir turn.take.bus) = some turn.place ∧
      (turn.place ∉ back.map Turn.place →
        tree'.entry? turn.place = some (.file turn.content)) := by
  induction h generalizing front with
  | nil => simp at hturns
  | cons _ whole leads written rest ih =>
    cases front with
    | nil =>
      cases hturns
      exact ⟨whole, audioPlace?_of_keeps rest.keeps leads,
        fun hplace => rest.keeps.entries _ _ written.entry (.inr hplace)⟩
    | cons _ front =>
      obtain ⟨_, hrest⟩ := List.cons.inj hturns
      exact ih hrest

/-- What is at a path, and in the place of no file, is found in every turn. -/
theorem lookAudio (h : Renders audio s notes outputDir rack tree turns tree') {path : String}
    {place : List String} {e : FileEntry} (hplace : audioPlace? audio tree path = some place)
    (he : tree.entry? place = some e) (hsafe : place ∉ turns.map Turn.place) :
    ∀ turn ∈ turns, CommandLine.lookAudio audio turn.tree path =
      CommandLine.lookAudio audio tree path := by
  induction h with
  | nil => exact fun turn hturn => absurd hturn List.not_mem_nil
  | cons _ _ _ written _ ih =>
    rw [List.map_cons, List.mem_cons, not_or] at hsafe
    have hother := mt List.mem_singleton.mp hsafe.1
    refine List.forall_mem_cons.mpr ⟨rfl, fun turn hturn => ?_⟩
    rw [ih (audioPlace?_of_keeps written.keeps hplace)
      (written.keeps.entries place e he (.inr hother)) hsafe.2 turn hturn]
    exact lookAudio_of_keeps written.keeps hplace he hother

/-- If the clips are found alike in every turn, an output comes to what it comes to by
itself. -/
theorem alone (h : Renders audio s notes outputDir rack tree turns tree') {s' : Session Float}
    (hclips : ∀ turn ∈ turns, finding audio s turn.tree = s') {P : Stage Float → Prop}
    (hrepeats : Session.Repeats P s' s') {st : Stage Float} (hst : P st)
    (hrack : P (.ofRack rack)) :
    ∀ turn ∈ turns, (s'.renderBus notes turn.take.bus st).1 = .ok turn.take := by
  induction h with
  | nil => exact fun turn hturn => absurd hturn List.not_mem_nil
  | @cons rack tree tree₁ tree' take st₁ content place turns rendered _ _ _ _ ih =>
    obtain ⟨hfirst, hrest⟩ := List.forall_mem_cons.mp hclips
    simp only at hfirst
    rw [hfirst] at rendered
    obtain ⟨hresult, _, hst₁⟩ := hrepeats.renderBus hst hrack notes take.bus
    rw [rendered] at hresult hst₁
    exact List.forall_mem_cons.mpr ⟨hresult, ih hrest (hrepeats.banks st₁ _ rfl hst₁)⟩

end Renders

/-! ## Two outputs -/

/-- A document of two outputs in different files; no instrument plays, and no note has to
be played. -/
def twoOutputs (name : String) : Document.Value :=
  .map [
    (.text "metadata", .map [(.text "strict", .atom (.bool false))]),
    (.text "outputs", .list [
      .map [(.text "name", .ofText "o"), (.text "output_file", .ofText "a.wav"),
        (.text "channels", .list [.atom (.int 0)])],
      .map [(.text "name", .ofText name), (.text "output_file", .ofText "b.wav"),
        (.text "channels", .list [.atom (.int 1)])]])]

/-- The arrangement of the document. -/
def silentPair (name : String) : Arrangement Float :=
  ⟨44100, false, none, "", [], [], [], [], [⟨"o", "a.wav", [0]⟩, ⟨name, "b.wav", [1]⟩]⟩

theorem arrangement_twoOutputs (base : Path) (limit : Option Int) (name : String) :
    Build.arrangement base limit (twoOutputs name) = .ok (silentPair name) := rfl

/-- A session that has a note of one sample for the first of the outputs. -/
def silentSession (name : String) : Session Float :=
  ⟨silentPair name, clipsIn .wave [], 44100, false⟩

def silentNotes : List Note := [⟨0, 0, 0, 1, 60, 100⟩]

/-- The files of both outputs. -/
def silentFiles : FileTree :=
  ⟨["w"], [(["w", "a.wav"], .file (Wav.encode 44100 [0])),
    (["w", "b.wav"], .file (Wav.encode 44100 []))]⟩

/-- Both files are written, each into the current folder. -/
theorem namesOf_silentPair (t : FileTree) :
    t.namesOf "a.wav" = .ok (t.current ++ ["a.wav"]) ∧
      t.namesOf "b.wav" = .ok (t.current ++ ["b.wav"]) := by
  constructor
  · exact t.namesOf_of_plain (by decide +kernel : ∀ i < 5, _) (by decide +kernel)
      (by decide +kernel) (by decide +kernel)
  · exact t.namesOf_of_plain (by decide +kernel : ∀ i < 5, _) (by decide +kernel)
      (by decide +kernel) (by decide +kernel)

theorem audioPlace?_silentFiles :
    audioPlace? .wave silentFiles "a.wav" = some ["w", "a.wav"] ∧
      audioPlace? .wave silentFiles "b.wav" = some ["w", "b.wav"] := by
  obtain ⟨hfirst, hsecond⟩ := namesOf_silentPair silentFiles
  have hopened : AudioLibrary.wave.opens "a.wav" = some "a.wav" := rfl
  have hopened' : AudioLibrary.wave.opens "b.wav" = some "b.wav" := rfl
  exact ⟨audioPlace?_eq_some_iff.mpr ⟨"a.wav", hopened, hfirst⟩,
    audioPlace?_eq_some_iff.mpr ⟨"b.wav", hopened', hsecond⟩⟩

/-- Both outputs are rendered and saved. -/
theorem ending_silentPair :
    ((renderFrom .builtIn (silentSession "p") silentNotes none [] []
      (silentPair "p").outputs).follow (.bare ["w"])).ending =
      ((Script.tellAll Platform.builtIn.terminal
        (["a.wav", "b.wav"].map fun path => successLine (Path.ofText path).name)
        .done).follow silentFiles).ending := by
  have hfirst : (finding .wave (silentSession "p") (.bare ["w"])).renderBus silentNotes
      ⟨"o", "a.wav", [0]⟩ (.ofRack []) = (.ok ⟨⟨"o", "a.wav", [0]⟩, #[0], 0.0, 0, 1⟩,
        ⟨[], [.warning (.skippedNote 60 0 0)]⟩) := rfl
  have hsecond (tree : FileTree) : (finding .wave (silentSession "p") tree).renderBus silentNotes
      ⟨"p", "b.wav", [1]⟩ (.ofRack []) = (.ok ⟨⟨"p", "b.wav", [1]⟩, #[], 0.0, 0, 0⟩,
        ⟨[], []⟩) := rfl
  have hpath : outputPath none ⟨"o", "a.wav", [0]⟩ = "a.wav" ∧
      outputPath none ⟨"p", "b.wav", [1]⟩ = "b.wav" := ⟨rfl, rfl⟩
  let halfway : FileTree := ⟨["w"], [(["w", "a.wav"], .file (Wav.encode 44100 [0]))]⟩
  have hsave (next : Script) : (save .wave "a.wav" 44100 [0] next).follow (.bare ["w"]) =
      next.follow halfway := by
    have hwhole : AudioLibrary.wave.write "a.wav" 44100 [0] = .whole (Wav.encode 44100 [0]) := rfl
    have hfolder : Path.folderText "a.wav" = "" := rfl
    have hopened : AudioLibrary.wave.opens "a.wav" = some "a.wav" := rfl
    exact follow_save hfolder hwhole hopened
      (by rw [FileTree.write?, (namesOf_silentPair _).1]; rfl)
  have hsave' (next : Script) :
      (save .wave "b.wav" 44100 [] next).follow halfway = next.follow silentFiles := by
    have hwhole : AudioLibrary.wave.write "b.wav" 44100 [] = .whole (Wav.encode 44100 []) := rfl
    have hfolder : Path.folderText "b.wav" = "" := rfl
    have hopened : AudioLibrary.wave.opens "b.wav" = some "b.wav" := rfl
    exact follow_save hfolder hwhole hopened
      (by rw [FileTree.write?, (namesOf_silentPair _).2]; rfl)
  have haudio : Platform.builtIn.audio = .wave := rfl
  rw [silentPair, ending_renderFrom, haudio, hfirst]
  simp only [hpath.1]
  refine (congrArg Outcome.ending (hsave _)).trans ?_
  rw [ending_renderFrom, haudio, hsecond]
  simp only [hpath.2]
  refine (congrArg Outcome.ending (hsave' _)).trans ?_
  rfl

/-! ## All outputs -/

/-- **An output is lost to a later one only.**  On an arrangement made from a document,
whatever was rendered before, the table of all outputs has each name once, and an output
that no later one shares its name with stands there with the samples that it comes to by
itself.  When the outputs have all been saved, on whatever platform, the path of each leads
to where its file was written in its turn, and the file holds what the library writes for
the samples of that turn unless the file of a later output is in the same place.  If every
clip was there and no file took the place of one, the samples of a turn are those that the
output comes to by itself. -/
theorem outputs_kept {base : Path} {limit : Option Int} {document : Document.Value}
    {a : Arrangement Float} (h : Build.arrangement base limit document = .ok a)
    (load : ClipLoader Float) (sampleRate : Int) (strict : Bool) (notes : List Note)
    (visits : List (Visit Float)) :
    let s : Session Float := ⟨a, load, sampleRate, strict⟩
    (∀ visits' table, (s.renderAll notes (a.stageAfter load visits)).1 = .ok table →
      Session.Lists (fun bus => (s.renderBus notes bus (a.stageAfter load visits')).1)
        a.outputs table) ∧
    ∀ (platform : Platform) outputDir tree,
      let audio := platform.audio
      let rack := (a.stageAfter load visits).rack
      let o := (renderFrom platform s notes outputDir rack [] a.outputs).follow tree
      o.IsThrough → ∃ turns : List Turn, turns.map (fun turn => turn.take.bus) = a.outputs ∧
        Renders audio s notes outputDir rack tree turns o.tree ∧
        (∀ front turn back, turns = front ++ turn :: back →
          audio.write (outputPath outputDir turn.take.bus) sampleRate turn.take.samples.toList =
            .whole turn.content ∧
          audioPlace? audio o.tree (outputPath outputDir turn.take.bus) = some turn.place ∧
          (turn.place ∉ back.map Turn.place →
            o.tree.entry? turn.place = some (.file turn.content))) ∧
        ((finding audio s tree).load = load → (∀ path ∈ clipPaths a, ∃ place e,
          audioPlace? audio tree path = some place ∧ tree.entry? place = some e ∧
            place ∉ turns.map Turn.place) →
          ∀ visits', ∀ turn ∈ turns,
            (s.renderBus notes turn.take.bus (a.stageAfter load visits')).1 = .ok turn.take) := by
  intro s
  refine ⟨fun visits' table htable => Build.lists_renderAll h load sampleRate strict htable, ?_⟩
  intro platform outputDir tree audio rack o hthrough
  obtain ⟨turns, hturns, hrenders⟩ := exists_renders hthrough
  refine ⟨turns, hturns, hrenders, fun front turn back hsplit => hrenders.entry hsplit, ?_⟩
  intro hload hclips visits'
  have hfinding : ∀ turn ∈ turns, finding audio s turn.tree = s := by
    intro turn hturn
    have hfiles : clipFiles audio a turn.tree = clipFiles audio a tree := by
      refine List.map_congr_left fun path hpath => ?_
      obtain ⟨place, e, hplace, he, hsafe⟩ := hclips path hpath
      rw [hrenders.lookAudio hplace he hsafe turn hturn]
    rw [finding, hfiles]
    exact congrArg (fun load => { s with load := load }) hload
  obtain ⟨P, hstage, hrepeats⟩ := Build.exists_repeats h load
  have hrack : P (.ofRack rack) :=
    (hrepeats sampleRate strict).banks (a.stageAfter load visits) _ rfl (hstage visits)
  exact hrenders.alone hfinding (hrepeats sampleRate strict) (hstage visits') hrack

/-- Both outputs stand in the table, and each file holds what its output comes to. -/
theorem outputs_kept_silentPair :
    Build.arrangement ⟨0, []⟩ none (twoOutputs "p") = .ok (silentPair "p") ∧
      Session.Lists (fun bus => ((silentSession "p").renderBus silentNotes bus (.ofRack [])).1)
        (silentPair "p").outputs [("o", #[0]), ("p", #[])] ∧
      ∃ turns : List Turn, turns.map (fun turn => turn.take.bus) = (silentPair "p").outputs ∧
        turns.map Turn.place = [["w", "a.wav"], ["w", "b.wav"]] ∧
        ∀ turn ∈ turns, silentFiles.entry? turn.place = some (.file turn.content) ∧
          AudioLibrary.wave.write (outputPath none turn.take.bus) 44100
            turn.take.samples.toList = .whole turn.content ∧
          ((silentSession "p").renderBus silentNotes turn.take.bus (.ofRack [])).1 =
            .ok turn.take := by
  have harrangement := arrangement_twoOutputs ⟨0, []⟩ none "p"
  obtain ⟨htable, hfiles⟩ :=
    outputs_kept harrangement (clipsIn .wave []) 44100 false silentNotes []
  refine ⟨harrangement, htable [] _ rfl, ?_⟩
  have hending := ending_silentPair
  have hthrough :=
    (Script.isThrough_tellAll Platform.builtIn.terminal silentFiles _).of_ending hending.symm
  have htree := (Outcome.tree_of_ending hending).trans
    (Script.tree_follow_tellAll Platform.builtIn.terminal silentFiles _)
  obtain ⟨turns, hturns, -, hentry, halone⟩ := hfiles .builtIn none (.bare ["w"]) hthrough
  obtain ⟨first, rest, rfl, hfirstBus, hrest⟩ := List.map_eq_cons_iff.mp hturns
  obtain ⟨second, rest, rfl, hsecondBus, hrest⟩ := List.map_eq_cons_iff.mp hrest
  obtain rfl := List.map_eq_nil_iff.mp hrest
  have hentry' : ∀ front turn back, [first, second] = front ++ turn :: back →
      AudioLibrary.wave.write (outputPath none turn.take.bus) 44100 turn.take.samples.toList =
        .whole turn.content ∧
      audioPlace? .wave silentFiles (outputPath none turn.take.bus) = some turn.place ∧
        (turn.place ∉ back.map Turn.place →
          silentFiles.entry? turn.place = some (.file turn.content)) := by
    rw [← htree]
    exact hentry
  obtain ⟨hfirstWhole, hfirst, hfirstFile⟩ := hentry' [] first [second] rfl
  obtain ⟨hsecondWhole, hsecond, hsecondFile⟩ := hentry' [first] second [] rfl
  have hfirstPlace : first.place = ["w", "a.wav"] := by
    rw [hfirstBus] at hfirst
    exact Option.some.inj (hfirst.symm.trans audioPlace?_silentFiles.1)
  have hsecondPlace : second.place = ["w", "b.wav"] := by
    rw [hsecondBus] at hsecond
    exact Option.some.inj (hsecond.symm.trans audioPlace?_silentFiles.2)
  have hdistinct : first.place ∉ [second].map Turn.place := by
    rw [List.map_singleton, hfirstPlace, hsecondPlace]
    decide
  refine ⟨[first, second], hturns, ?_, ?_⟩
  · rw [List.map_cons, List.map_singleton, hfirstPlace, hsecondPlace]
  · have hrendered := halone rfl (fun path hpath => absurd hpath List.not_mem_nil) []
    intro turn hturn
    refine ⟨?_, ?_, hrendered turn hturn⟩
    · rcases List.mem_cons.mp hturn with rfl | hturn
      · exact hfirstFile hdistinct
      · obtain rfl := List.mem_singleton.mp hturn
        exact hsecondFile List.not_mem_nil
    · rcases List.mem_cons.mp hturn with rfl | hturn
      · exact hfirstWhole
      · obtain rfl := List.mem_singleton.mp hturn
        exact hsecondWhole

/-- Of two outputs of one name the table keeps the samples of the last one only: the first
has a note, and its samples are not there. -/
theorem renderAll_one_name :
    Build.arrangement ⟨0, []⟩ none (twoOutputs "o") = .ok (silentPair "o") ∧
      ∃ table, ((silentSession "o").renderAll silentNotes (.ofRack [])).1 = .ok table ∧
        ¬∀ bus ∈ (silentPair "o").outputs, ∃ take,
          ((silentSession "o").renderBus silentNotes bus (.ofRack [])).1 = .ok take ∧
            table.lookup bus.name = some take.samples := by
  refine ⟨rfl, [("o", #[])], rfl, ?_⟩
  intro hall
  obtain ⟨take, htake, hlookup⟩ := hall ⟨"o", "a.wav", [0]⟩ List.mem_cons_self
  obtain rfl : (⟨⟨"o", "a.wav", [0]⟩, #[0], 0.0, 0, 1⟩ : Take Float) = take := Except.ok.inj htake
  exact absurd hlookup (by decide)

end Orchestrion.CommandLine

import Orchestrion.Proofs.CommandLine.Outputs
import Orchestrion.Proofs.Document.Library
import Orchestrion.Proofs.Mix.Leniency

set_option autoImplicit false

/-!
# How far the work comes

The work has two parts.  The arrangement is loaded and its score is read; in this part nothing
is written, and whatever fails in it ends the work.  Then the outputs take their turns: each is
rendered with the clips that are in the tree by then, and saved.  The first one that fails ends
the work; the files of those before it stay, and those behind it are not touched.
-/

namespace Orchestrion.CommandLine

open Script (Outcome)

/-! ## Lines that are told -/

/-- Whether some texts can all be told, where `shown` says what is shown of each. -/
def AllShown (shown : String → Option String) (texts : List String) : Prop :=
  ∀ text ∈ texts, (shown text).isSome = true

instance (shown : String → Option String) (texts : List String) :
    Decidable (AllShown shown texts) :=
  inferInstanceAs (Decidable (∀ text ∈ texts, (shown text).isSome = true))

namespace Script

variable {terminal : Terminal} {next next' : Script} {tree : FileTree}

theorem ending_tell_congr (text : String)
    (h : (next.follow tree).ending = (next'.follow tree).ending) :
    ((tell terminal text next).follow tree).ending =
      ((tell terminal text next').follow tree).ending := by
  unfold tell
  split
  · exact h
  · rfl

theorem tellAll_append (terminal : Terminal) (texts more : List String) (next : Script) :
    tellAll terminal (texts ++ more) next = tellAll terminal texts (tellAll terminal more next) :=
  List.foldr_append

theorem ending_tellAll (terminal : Terminal) (texts : List String) (next : Script)
    (tree : FileTree) :
    ((tellAll terminal texts next).follow tree).ending =
      if AllShown terminal.shown texts then (next.follow tree).ending
      else (some .untold, tree) := by
  induction texts with
  | nil => exact (if_pos nofun).symm
  | cons text rest ih =>
    rw [tellAll, List.foldr_cons, ← tellAll, tell]
    unfold AllShown at ih ⊢
    simp only [List.forall_mem_cons]
    cases hshown : terminal.shown text with
    | none => simp [Script.follow, Outcome.ending]
    | some line =>
      simp only [Option.isSome_some, true_and]
      exact ih

end Script

/-! ## Before the outputs -/

/-- The arrangement that is asked for. -/
def loaded (parsers : Document.Parsers) (o : Options) (tree : FileTree) :
    Except Failure (Arrangement Float) :=
  let path := Path.ofText o.config
  match Document.ofFile parsers path (tree.look path.text) with
  | .error fault => .error (.arrangement (.document fault))
  | .ok document =>
    match Build.ofDocument path none document with
    | .error fault => .error (.arrangement fault)
    | .ok a => .ok a

/-- The notes of the score of an arrangement. -/
def scored (o : Options) (a : Arrangement Float) (tree : FileTree) : Except Failure (List Note) :=
  match scorePath? o a with
  | none => .error .noScore
  | some path =>
    match Midi.readNotes (tree.look path).content? a.sampleRate with
    | .error fault => .error (.score path fault)
    | .ok (notes, _) => .ok notes

/-- The arrangement and the notes that there are to be rendered. -/
def prepared (parsers : Document.Parsers) (o : Options) (tree : FileTree) :
    Except Failure (Arrangement Float × List Note) :=
  match loaded parsers o tree with
  | .error failure => .error failure
  | .ok a => (scored o a tree).map fun notes => (a, notes)

/-- The remark that an arrangement brings along. -/
def commentLines (a : Arrangement Float) : List String :=
  if a.comments.isEmpty then [] else [infoLine a.comments]

/-- What is told of a score. -/
def scoreLines (o : Options) (a : Arrangement Float) (tree : FileTree) : List String :=
  match scorePath? o a with
  | none => []
  | some path =>
    stepLine 2 ("Reading notes from " ++ path) ::
      match scored o a tree with
      | .error _ => []
      | .ok notes =>
        [infoLine (Decimal.natText notes.length ++ " notes at " ++ Decimal.intText a.sampleRate ++
            " Hz"),
          stepLine 3 ("Rendering " ++ Decimal.natText a.outputs.length ++ " output(s)")]

/-- What is told before the first output has its turn. -/
def opening (parsers : Document.Parsers) (o : Options) (tree : FileTree) : List String :=
  stepLine 1 ("Loading arrangement " ++ o.config) ::
    match loaded parsers o tree with
    | .error _ => []
    | .ok a => commentLines a ++ scoreLines o a tree

/-- The session of an arrangement, in the policy that is asked for. -/
def sessionOf (o : Options) (a : Arrangement Float) : Session Float :=
  ⟨a, fun _ => none, a.sampleRate, if o.lenient then false else a.strict⟩

/-- What is left to do with the notes of a score. -/
def renderOf (platform : Platform) (o : Options) (a : Arrangement Float) :
    Except Failure (List Note) → Script
  | .error failure => .fail failure
  | .ok notes => renderFrom platform (sessionOf o a) notes o.outputDir a.rack [] a.outputs

variable {platform : Platform} {parsers : Document.Parsers} {audio : AudioLibrary} {o : Options}
  {a : Arrangement Float} {tree tree' : FileTree} {notes : List Note}

theorem sessionOf_eq (o : Options) (a : Arrangement Float) :
    sessionOf o a =
      if o.lenient then { Session.ofArrangement a fun _ => none with strict := false }
      else Session.ofArrangement a fun _ => none := by
  unfold sessionOf
  split <;> rfl

theorem render_eq (platform : Platform) (o : Options) (a : Arrangement Float)
    (notes : List Note) :
    render platform o a notes = Script.tellAll platform.terminal
      [infoLine (Decimal.natText notes.length ++ " notes at " ++ Decimal.intText a.sampleRate ++
          " Hz"),
        stepLine 3 ("Rendering " ++ Decimal.natText a.outputs.length ++ " output(s)")]
      (renderOf platform o a (.ok notes)) := by
  unfold render renderOf
  simp only [← sessionOf_eq, Script.tellAll, List.foldr_cons, List.foldr_nil]

/-- Reads the score of an arrangement and goes on to the outputs. -/
def scoreScript (platform : Platform) (o : Options) (a : Arrangement Float) : Script :=
  match scorePath? o a with
  | none => .fail .noScore
  | some path =>
    .tell platform.terminal (stepLine 2 ("Reading notes from " ++ path))
      (.look path fun state =>
        match Midi.readNotes state.content? a.sampleRate with
        | .error fault => .fail (.score path fault)
        | .ok (notes, warnings) => .warnAll warnings (render platform o a notes))

theorem play_eq (platform : Platform) (o : Options) (a : Arrangement Float) :
    play platform o a =
      Script.tellAll platform.terminal (commentLines a) (scoreScript platform o a) := by
  have hplay : play platform o a = if a.comments.isEmpty then scoreScript platform o a
      else .tell platform.terminal (infoLine a.comments) (scoreScript platform o a) := rfl
  rw [hplay, commentLines]
  split <;> rfl

theorem ending_scoreScript (platform : Platform) (o : Options) (a : Arrangement Float)
    (tree : FileTree) :
    ((scoreScript platform o a).follow tree).ending =
      ((Script.tellAll platform.terminal (scoreLines o a tree)
        (renderOf platform o a (scored o a tree))).follow tree).ending := by
  unfold scoreScript scoreLines scored
  cases scorePath? o a with
  | none => rfl
  | some path =>
    apply Script.ending_tell_congr
    rw [Script.follow]
    cases hread : Midi.readNotes (tree.look path).content? a.sampleRate with
    | error fault =>
      simp only [hread]
      rfl
    | ok found =>
      obtain ⟨notes, warnings⟩ := found
      simp only [hread]
      rw [Script.ending_warnAll, render_eq]
      rfl

theorem ending_play (platform : Platform) (o : Options) (a : Arrangement Float)
    (tree : FileTree) :
    ((play platform o a).follow tree).ending =
      ((Script.tellAll platform.terminal (commentLines a ++ scoreLines o a tree)
        (renderOf platform o a (scored o a tree))).follow tree).ending := by
  rw [play_eq, Script.tellAll_append, Script.ending_tellAll, Script.ending_tellAll,
    ending_scoreScript]

/-- The work opens with some lines, and then fails or goes on to the outputs. -/
theorem ending_work (platform : Platform) (o : Options) (tree : FileTree) :
    ((work platform o).follow tree).ending =
      if AllShown platform.terminal.shown (opening platform.parsers o tree) then
        match prepared platform.parsers o tree with
        | .error failure => (some failure, tree)
        | .ok (a, notes) =>
          ((renderFrom platform (sessionOf o a) notes o.outputDir a.rack [] a.outputs).follow
            tree).ending
      else (some .untold, tree) := by
  have htold : ((work platform o).follow tree).ending =
      ((Script.tellAll platform.terminal (opening platform.parsers o tree)
        (match loaded platform.parsers o tree with
        | .error failure => .fail failure
        | .ok a => renderOf platform o a (scored o a tree))).follow tree).ending := by
    unfold work opening loaded
    simp only
    apply Script.ending_tell_congr
    rw [Script.follow]
    generalize Path.ofText o.config = path
    cases Document.ofFile platform.parsers path (tree.look path.text) with
    | error fault => rfl
    | ok document =>
      simp only
      cases Build.ofDocument path none document with
      | error fault => rfl
      | ok a => exact ending_play platform o a tree
  rw [htold, Script.ending_tellAll, prepared]
  congr 1
  cases loaded platform.parsers o tree with
  | error failure => rfl
  | ok a =>
    simp only
    cases scored o a tree <;> rfl

/-! ## The turns of the outputs -/

/-- The course of some outputs, from some banks and a tree on: the turns that are taken, the
failure that ends them, if there is one, and the tree that is left behind. -/
inductive Course (audio : AudioLibrary) (s : Session Float) (notes : List Note)
    (outputDir : Option String) :
    List (Bank Float) → FileTree → List OutputBus → List Turn → Option Failure → FileTree → Prop
  /-- no output is left -/
  | finished (rack : List (Bank Float)) (tree : FileTree) :
    Course audio s notes outputDir rack tree [] [] none tree
  /-- an output cannot be rendered -/
  | unrendered {rack : List (Bank Float)} {tree : FileTree} {bus : OutputBus}
    {rest : List OutputBus} {fault : Fault} {st : Stage Float}
    (failed : (finding audio s tree).renderBus notes bus (.ofRack rack) = (.error fault, st)) :
    Course audio s notes outputDir rack tree (bus :: rest) []
      (some (failureOf audio (clipFiles audio s.arrangement tree) fault)) tree
  /-- an output is rendered but cannot be saved -/
  | unsaved {rack : List (Bank Float)} {tree tree' : FileTree} {bus : OutputBus}
    {rest : List OutputBus} {take : Take Float} {st : Stage Float} {failure : Failure}
    (rendered : (finding audio s tree).renderBus notes bus (.ofRack rack) = (.ok take, st))
    (failed : ((save audio (outputPath outputDir bus) s.sampleRate take.samples.toList
      .done).follow tree).ending = (some failure, tree')) :
    Course audio s notes outputDir rack tree (bus :: rest) [] (some failure) tree'
  /-- an output has its turn: it is rendered and saved, and the others come after it -/
  | turn {rack : List (Bank Float)} {tree tree₁ tree' : FileTree} {bus : OutputBus}
    {rest : List OutputBus} {take : Take Float} {st : Stage Float} {content : Bytes}
    {place : List String} {turns : List Turn} {failure : Option Failure}
    (rendered : (finding audio s tree).renderBus notes bus (.ofRack rack) = (.ok take, st))
    (stored : ((save audio (outputPath outputDir bus) s.sampleRate take.samples.toList
      .done).follow tree).ending = (none, tree₁))
    (whole : audio.write (outputPath outputDir bus) s.sampleRate take.samples.toList =
      .whole content)
    (saved : Saved audio (outputPath outputDir bus) content place tree tree₁)
    (others : Course audio s notes outputDir st.rack tree₁ rest turns failure tree') :
    Course audio s notes outputDir rack tree (bus :: rest) (⟨tree, take, content, place⟩ :: turns)
      failure tree'

theorem of_save_failed {path : String} {rate : Int} {samples : List Int} {tree tree' : FileTree}
    {failure : Failure}
    (h : ((save audio path rate samples .done).follow tree).ending = (some failure, tree')) :
    failure.isOfSave = true ∧ Spares audio path tree tree' := by
  rcases save_cases audio path rate samples tree with
    ⟨content, place, tree₁, _, _, hfollow⟩ | ⟨f, tree₁, hfailure, hspares, hfollow⟩
  · rw [hfollow] at h
    cases h
  · rw [hfollow] at h
    cases h
    exact ⟨hfailure, hspares⟩

/-- The files after some turns. -/
def filesAfter (turns : List Turn) (files : List String → Option Bytes) :
    List String → Option Bytes :=
  turns.foldl (fun files turn => Function.update files turn.place (some turn.content)) files

/-- What is told in the end: the name of each file, or the failure if it is reported. -/
def closing (outputDir : Option String) (turns : List Turn) : Option Failure → List String
  | none =>
    turns.map fun turn => successLine (Path.ofText (outputPath outputDir turn.take.bus)).name
  | some failure => failure.message?.toList.map fun text => failureLine ("Rendering failed: " ++ text)

/-- Whether what is told in the end can be told. -/
def ClosingShown (terminal : Terminal) (outputDir : Option String) (turns : List Turn) :
    Option Failure → Prop
  | none => AllShown terminal.shown (closing outputDir turns none)
  | some failure => AllShown terminal.shownFailure (closing outputDir turns (some failure))

variable {s : Session Float} {outputDir : Option String} {rack : List (Bank Float)}
  {buses : List OutputBus} {turns : List Turn} {failure : Option Failure}

/-- The outputs that are left have a course, and end as it does; if all of them are saved, their
names are told. -/
theorem exists_course (platform : Platform) (s : Session Float) (notes : List Note)
    (outputDir : Option String) (rack : List (Bank Float)) (tree : FileTree)
    (written : List String) (buses : List OutputBus) :
    ∃ turns failure tree',
      Course platform.audio s notes outputDir rack tree buses turns failure tree' ∧
      ((renderFrom platform s notes outputDir rack written buses).follow tree).ending =
        match failure with
        | some f => (some f, tree')
        | none =>
          ((Script.tellAll platform.terminal
            ((written.reverse.map fun path => successLine (Path.ofText path).name) ++
              closing outputDir turns none) .done).follow tree').ending := by
  induction buses generalizing rack tree written with
  | nil =>
    refine ⟨[], none, tree, .finished rack tree, ?_⟩
    simp only [renderFrom, closing, List.map_nil, List.append_nil]
  | cons bus rest ih =>
    rw [ending_renderFrom]
    rcases hrendered : (finding platform.audio s tree).renderBus notes bus (.ofRack rack) with
      ⟨fault | take, st⟩
    · exact ⟨[], _, tree, .unrendered hrendered, rfl⟩
    · rcases save_cases platform.audio (outputPath outputDir bus) s.sampleRate
        take.samples.toList tree with
        ⟨content, place, tree₁, hwhole, hsaved, hfollow⟩ | ⟨f, tree₁, _, _, hfollow⟩
      · obtain ⟨turns, failure, tree', hcourse, hending⟩ :=
          ih st.rack tree₁ (outputPath outputDir bus :: written)
        have hstored := congrArg Outcome.ending (hfollow .done)
        refine ⟨⟨tree, take, content, place⟩ :: turns, failure, tree',
          .turn hrendered hstored hwhole hsaved hcourse, ?_⟩
        simp only
        rw [hfollow, hending]
        obtain rfl : take.bus = bus := Session.bus_of_renderBus (congrArg Prod.fst hrendered)
        cases failure with
        | some f => rfl
        | none =>
          simp only [closing, List.reverse_cons, List.map_append, List.map_cons, List.map_nil,
            List.append_assoc, List.singleton_append]
      · have hfailed := congrArg Outcome.ending (hfollow .done)
        refine ⟨[], some f, tree₁, .unsaved hrendered hfailed, ?_⟩
        simp only
        rw [hfollow]
        rfl

namespace Course

/-- The turns are those of the first outputs, in their order. -/
theorem map_bus (h : Course audio s notes outputDir rack tree buses turns failure tree') :
    turns.map (fun turn => turn.take.bus) = buses.take turns.length := by
  induction h with
  | finished | unrendered | unsaved => rfl
  | turn rendered _ _ _ _ ih =>
    rw [List.map_cons, List.length_cons, List.take_succ_cons, ih,
      Session.bus_of_renderBus (congrArg Prod.fst rendered)]

/-- All outputs have had their turn unless one has failed. -/
theorem failure_eq_none_iff (h : Course audio s notes outputDir rack tree buses turns failure tree') :
    failure = none ↔ turns.length = buses.length := by
  induction h with
  | finished => simp
  | unrendered | unsaved => simp
  | turn _ _ _ _ _ ih => simpa using ih

/-- There is one course only. -/
theorem unique {turns₁ turns₂ : List Turn} {failure₁ failure₂ : Option Failure}
    {tree₁ tree₂ : FileTree} (h₁ : Course audio s notes outputDir rack tree buses turns₁ failure₁ tree₁)
    (h₂ : Course audio s notes outputDir rack tree buses turns₂ failure₂ tree₂) :
    turns₁ = turns₂ ∧ failure₁ = failure₂ ∧ tree₁ = tree₂ := by
  induction h₁ generalizing turns₂ failure₂ tree₂ with
  | finished rack tree =>
    cases h₂
    exact ⟨rfl, rfl, rfl⟩
  | unrendered failed =>
    cases h₂ with
    | unrendered failed' =>
      cases failed.symm.trans failed'
      exact ⟨rfl, rfl, rfl⟩
    | unsaved rendered' _ => cases failed.symm.trans rendered'
    | turn rendered' _ _ _ _ => cases failed.symm.trans rendered'
  | unsaved rendered failed =>
    cases h₂ with
    | unrendered failed' => cases rendered.symm.trans failed'
    | unsaved rendered' failed' =>
      cases rendered.symm.trans rendered'
      cases failed.symm.trans failed'
      exact ⟨rfl, rfl, rfl⟩
    | turn rendered' stored' _ _ _ =>
      cases rendered.symm.trans rendered'
      cases failed.symm.trans stored'
  | turn rendered stored whole saved _ ih =>
    cases h₂ with
    | unrendered failed' => cases rendered.symm.trans failed'
    | unsaved rendered' failed' =>
      cases rendered.symm.trans rendered'
      cases stored.symm.trans failed'
    | turn rendered' stored' whole' saved' others' =>
      cases rendered.symm.trans rendered'
      cases stored.symm.trans stored'
      cases whole.symm.trans whole'
      cases saved.leads.symm.trans saved'.leads
      obtain ⟨rfl, rfl, rfl⟩ := ih others'
      exact ⟨rfl, rfl, rfl⟩

/-- A failure is one of rendering an output, or of saving it. -/
theorem failure_cases (h : Course audio s notes outputDir rack tree buses turns failure tree')
    {f : Failure} (hf : failure = some f) :
    f.isOfSave = true ∨ ∃ files fault rack tree bus, f = failureOf audio files fault ∧
      ((finding audio s tree).renderBus notes bus (.ofRack rack)).1 = .error fault := by
  induction h with
  | finished => cases hf
  | @unrendered rack tree bus _ fault _ failed =>
    cases hf
    exact .inr ⟨_, fault, rack, tree, bus, rfl, congrArg Prod.fst failed⟩
  | unsaved _ failed =>
    cases hf
    exact .inl (of_save_failed failed).1
  | turn _ _ _ _ _ ih => exact ih hf

/-- A file holds what the library writes for the samples of its turn. -/
theorem whole (h : Course audio s notes outputDir rack tree buses turns failure tree') :
    ∀ turn ∈ turns, audio.write (outputPath outputDir turn.take.bus) s.sampleRate
      turn.take.samples.toList = .whole turn.content := by
  induction h with
  | finished | unrendered | unsaved => exact fun turn hturn => absurd hturn List.not_mem_nil
  | turn rendered _ whole _ _ ih =>
    obtain rfl := Session.bus_of_renderBus (congrArg Prod.fst rendered)
    exact List.forall_mem_cons.mpr ⟨whole, ih⟩

/-- The files are those of the turns; only an output that could not be saved may have changed
one more, at its own path. -/
theorem files (h : Course audio s notes outputDir rack tree buses turns failure tree')
    (names : List String) :
    tree'.file? names = filesAfter turns tree.file? names ∨
      ∃ f bus, failure = some f ∧ f.isOfSave = true ∧ buses[turns.length]? = some bus ∧
        audioPlace? audio tree' (outputPath outputDir bus) = some names := by
  induction h with
  | finished | unrendered => exact .inl rfl
  | @unsaved _ _ _ bus _ _ _ f _ failed =>
    obtain ⟨hfailure, hspares⟩ := of_save_failed failed
    rcases hspares names with hplace | hsame
    · exact .inr ⟨f, bus, rfl, hfailure, rfl, hplace⟩
    · exact .inl hsame
  | turn _ _ _ saved _ ih =>
    rw [saved.files] at ih
    exact ih

end Course

/-! ## How the work ends -/

section

variable {terminal : Terminal} {outcome : Outcome} {f : Failure}

theorem exitCode?_ne_zero (h : outcome.failure = some f) : exitCode? terminal outcome ≠ some 0 := by
  unfold exitCode?
  rw [h]
  simp only
  split <;> simp

/-- The program ends with one for what it reports, if that can be told. -/
theorem exitCode?_eq_one_iff (h : outcome.failure = some f)
    (hshown : ClosingShown terminal outputDir turns (some f)) :
    exitCode? terminal outcome = some 1 ↔ f.message?.isSome = true := by
  unfold exitCode?
  simp only [h, Failure.line?]
  cases hmessage : f.message? with
  | none => simp
  | some text =>
    have htold :
        (terminal.shownFailure (failureLine ("Rendering failed: " ++ text))).isSome = true := by
      apply hshown
      simp [closing, hmessage]
    obtain ⟨line, hline⟩ := Option.isSome_iff_exists.mp htold
    simp [hline]

end

/-- What fails before the outputs is no rendering. -/
theorem prepared_ne_rendering (parsers : Document.Parsers) (o : Options) (tree : FileTree)
    (fault : Fault) : prepared parsers o tree ≠ .error (.rendering fault) := by
  have hloaded : loaded parsers o tree ≠ .error (.rendering fault) := by
    unfold loaded
    simp only
    generalize Path.ofText o.config = path
    intro h
    repeat' split at h
    all_goals cases h
  have hscored (a : Arrangement Float) : scored o a tree ≠ .error (.rendering fault) := by
    unfold scored
    intro h
    repeat' split at h
    all_goals cases h
  unfold prepared
  cases hload : loaded parsers o tree with
  | error failure =>
    rw [hload] at hloaded
    exact fun h => hloaded (congrArg Except.error (Except.error.inj h))
  | ok a =>
    have hnone := hscored a
    simp only
    cases hscore : scored o a tree with
    | error failure =>
      rw [hscore] at hnone
      exact fun h => hnone (congrArg Except.error (Except.error.inj h))
    | ok notes => exact nofun

/-- A failure for want of an instrument is a fault of the rendering. -/
theorem eq_missingInstrument_of_failureOf {files : List (String × FileState)} {fault : Fault}
    {program : Int} (h : failureOf audio files fault = .rendering (.missingInstrument program)) :
    fault = .missingInstrument program := by
  unfold failureOf at h
  repeat' split at h
  all_goals cases h
  rfl

/-- A lenient program never fails for want of an instrument. -/
theorem Course.failure_ne_missingInstrument
    (h : Course audio s notes outputDir rack tree buses turns failure tree')
    (hstrict : s.strict = false) (program : Int) :
    failure ≠ some (.rendering (.missingInstrument program)) := by
  intro hf
  rcases h.failure_cases hf with hsave | ⟨files, fault, rack, tree, bus, hfault, hrender⟩
  · cases hsave
  · obtain rfl := eq_missingInstrument_of_failureOf hfault.symm
    exact (finding audio s tree).served_renderBus hstrict notes bus (.ofRack rack) program hrender

/-- What fails before the outputs leaves the tree as it was. -/
theorem work_of_prepared_eq_error {f : Failure}
    (h : prepared platform.parsers o tree = .error f) :
    ((work platform o).follow tree).failure =
        (if AllShown platform.terminal.shown (opening platform.parsers o tree) then some f
          else some .untold) ∧
      ((work platform o).follow tree).tree = tree := by
  have hending := ending_work platform o tree
  rw [h] at hending
  rw [← Outcome.ending_eq_iff, hending]
  split <;> rfl

/-- After that the work is the course of the outputs. -/
theorem exists_course_work (h : prepared platform.parsers o tree = .ok (a, notes))
    (hopening : AllShown platform.terminal.shown (opening platform.parsers o tree)) :
    ∃ turns failure,
      Course platform.audio (sessionOf o a) notes o.outputDir a.rack tree a.outputs turns failure
        ((work platform o).follow tree).tree ∧
      ((work platform o).follow tree).failure = failure.or
        (if AllShown platform.terminal.shown (closing o.outputDir turns none) then none
          else some .untold) := by
  have hending := ending_work platform o tree
  rw [if_pos hopening, h] at hending
  obtain ⟨turns, failure, tree', hcourse, hend⟩ :=
    exists_course platform (sessionOf o a) notes o.outputDir a.rack tree [] a.outputs
  simp only [hend] at hending
  have hended : ((work platform o).follow tree).failure = failure.or
      (if AllShown platform.terminal.shown (closing o.outputDir turns none) then none
        else some .untold) ∧
      ((work platform o).follow tree).tree = tree' := by
    rw [← Outcome.ending_eq_iff, hending]
    cases failure with
    | some f => rfl
    | none =>
      simp only [List.reverse_nil, List.map_nil, List.nil_append, Script.ending_tellAll]
      split <;> rfl
  exact ⟨turns, failure, hended.2 ▸ hcourse, hended.1⟩

/-- A lenient program never fails for want of an instrument. -/
theorem failure_ne_missingInstrument (platform : Platform) (h : o.lenient = true)
    (tree : FileTree) (program : Int) :
    ((work platform o).follow tree).failure ≠ some (.rendering (.missingInstrument program)) := by
  intro hf
  by_cases hopening : AllShown platform.terminal.shown (opening platform.parsers o tree)
  · cases hprepared : prepared platform.parsers o tree with
    | error f =>
      have hfailure := (work_of_prepared_eq_error hprepared).1
      rw [if_pos hopening, hf] at hfailure
      cases hfailure
      exact prepared_ne_rendering platform.parsers o tree _ hprepared
    | ok found =>
      obtain ⟨a, notes⟩ := found
      obtain ⟨turns, failure, hcourse, hfailure⟩ := exists_course_work hprepared hopening
      have hstrict : (sessionOf o a).strict = false := if_pos h
      rw [hf] at hfailure
      cases failure with
      | some f => exact hcourse.failure_ne_missingInstrument hstrict program hfailure.symm
      | none =>
        rw [Option.none_or] at hfailure
        split at hfailure <;> cases hfailure
  · have hending := ending_work platform o tree
    rw [if_neg hopening, Outcome.ending_eq_iff] at hending
    cases hf.symm.trans hending.1

/-! ## Small works -/

section

variable {text file : String} {entries : List (Document.Atom × Document.Value)}

/-- A score of one track that ends at once. -/
def emptyScore : Bytes :=
  Bytes.ofAscii "MThd" ++ [0, 0, 0, 6, 0, 1, 0, 1, 0, 96] ++ Bytes.ofAscii "MTrk" ++
    [0, 0, 0, 4, 0, 255, 47, 0]

/-- The files of a document and of a score without notes. -/
def filesOf (text : String) : FileTree :=
  ⟨["w"], [(["w", "a"], .file (Bytes.ofAscii text)), (["w", "s"], .file emptyScore)]⟩

/-- What is asked for: the document, and the score or none. -/
def optionsOf (midi : Option String) : Options := ⟨"a", midi, none, false, false⟩

/-- The arrangement of one output without channels. -/
def oneFile (file : String) : Arrangement Float :=
  ⟨44100, true, none, "", [], [], [], [], [⟨file, file, []⟩]⟩

theorem look_filesOf (text : String) :
    (filesOf text).look "a" = .file (Bytes.ofAscii text) ∧
      (filesOf text).look "s" = .file emptyScore := by
  have hdocument : (filesOf text).namesOf "a" = .ok ["w", "a"] :=
    (filesOf text).namesOf_of_plain (by decide +kernel : ∀ i < 1, _) (by decide +kernel)
      (by decide +kernel) (by decide +kernel)
  have hscore : (filesOf text).namesOf "s" = .ok ["w", "s"] :=
    (filesOf text).namesOf_of_plain (by decide +kernel : ∀ i < 1, _) (by decide +kernel)
      (by decide +kernel) (by decide +kernel)
  rw [FileTree.look, hdocument, FileTree.look, hscore]
  exact ⟨rfl, rfl⟩

theorem loaded_filesOf (midi : Option String)
    (htext : Document.textOf? (Bytes.ofAscii text) = some text)
    (hread : Document.Json.read text = .ok (.map entries)) :
    loaded .builtIn (optionsOf midi) (filesOf text) =
      (Build.ofDocument ⟨0, ["a"]⟩ none (.map entries)).mapError .arrangement := by
  have hpath : Path.ofText "a" = ⟨0, ["a"]⟩ :=
    FileTree.ofText_of_plain (by decide +kernel : ∀ i < 1, _) (by decide +kernel)
      (by decide +kernel) (by decide +kernel)
  have hzero : Document.hasZero ⟨0, ["a"]⟩ = false := by
    rw [Document.hasZero_eq]
    decide
  have hjson : Document.isYaml ⟨0, ["a"]⟩ = false := rfl
  have hparse : Document.Parsers.builtIn.parse ⟨0, ["a"]⟩ (Bytes.ofAscii text) =
      .ok (.map entries) := by
    simp only [Document.Parsers.parse, Document.Parsers.builtIn, hjson, htext,
      Document.Json.parse, hread, Bool.false_eq_true, if_false]
  have hdocument : Document.ofFile .builtIn ⟨0, ["a"]⟩ (.file (Bytes.ofAscii text)) =
      .ok (.map entries) := by
    simp only [Document.ofFile, hzero, hparse, Bool.false_eq_true, if_false]
  have hlook : (filesOf text).look (Path.text ⟨0, ["a"]⟩) = .file (Bytes.ofAscii text) :=
    (look_filesOf text).1
  unfold loaded
  simp only [optionsOf, hpath, hlook, hdocument]
  cases Build.ofDocument ⟨0, ["a"]⟩ none (.map entries) <;> rfl

theorem scored_filesOf (text file : String) :
    scored (optionsOf (some "s")) (oneFile file) (filesOf text) = .ok [] := by
  have hbytes : Midi.read emptyScore = .ok ⟨1, 96, [[⟨0, .endOfTrack⟩]]⟩ := rfl
  have hmerged : Midi.merged [[⟨0, .endOfTrack⟩]] = [⟨0, .endOfTrack⟩] :=
    List.mergeSort_singleton _
  have hmessages : (⟨1, 96, [[⟨0, .endOfTrack⟩]]⟩ : Midi.File).messages =
      .ok ([(⟨0.0, .other⟩ : TimedMessage Float)], none) := by
    unfold Midi.File.messages
    rw [hmerged]
    rfl
  have hnotes : Score.notes [(⟨0.0, .other⟩ : TimedMessage Float)] 44100 = .ok ([], []) := rfl
  have hpath : scorePath? (optionsOf (some "s")) (oneFile file) = some "s" := rfl
  unfold scored
  rw [hpath]
  simp only [(look_filesOf text).2, FileState.content?, Midi.readNotes, hbytes, hmessages, oneFile,
    hnotes, Midi.concluded]

theorem prepared_filesOf
    (htext : Document.textOf? (Bytes.ofAscii text) = some text)
    (hread : Document.Json.read text = .ok (.map entries))
    (hbuild : Build.ofDocument ⟨0, ["a"]⟩ none (.map entries) = .ok (oneFile file)) :
    prepared .builtIn (optionsOf (some "s")) (filesOf text) = .ok (oneFile file, []) ∧
      AllShown shown? (opening .builtIn (optionsOf (some "s")) (filesOf text)) := by
  have hload : loaded .builtIn (optionsOf (some "s")) (filesOf text) = .ok (oneFile file) := by
    rw [loaded_filesOf _ htext hread, hbuild]
    rfl
  have hscore := scored_filesOf text file
  have hpath : scorePath? (optionsOf (some "s")) (oneFile file) = some "s" := rfl
  constructor
  · rw [prepared, hload]
    simp only [hscore]
    rfl
  · unfold opening scoreLines
    simp only [hload, hpath, hscore]
    change AllShown shown? [stepLine 1 ("Loading arrangement " ++ "a"),
      stepLine 2 ("Reading notes from " ++ "s"),
      infoLine (Decimal.natText 0 ++ " notes at " ++ Decimal.intText 44100 ++ " Hz"),
      stepLine 3 ("Rendering " ++ Decimal.natText 1 ++ " output(s)")]
    decide +kernel

/-- Without notes an output comes to nothing. -/
theorem renderBus_nil (s : Session Float) (bus : OutputBus) (rack : List (Bank Float)) :
    s.renderBus [] bus (.ofRack rack) = (.ok ⟨bus, #[], 0.0, 0, 0⟩, .ofRack rack) := by
  unfold Session.renderBus
  simp only [List.filter_nil]
  rfl

/-- An output without notes has its turn if it can be saved. -/
theorem closing_of_course {s : Session Float} {rack : List (Bank Float)}
    {tree tree₁ tree' : FileTree} {turns : List Turn} {failure : Option Failure} {rate : Int}
    (hrate : s.sampleRate = rate)
    (hsave : ∀ next, (save audio file rate [] next).follow tree = next.follow tree₁)
    (h : Course audio s [] none rack tree [⟨file, file, []⟩] turns failure tree') :
    failure = none ∧ tree' = tree₁ ∧
      closing none turns none = [successLine (Path.ofText file).name] := by
  subst hrate
  have hstored := congrArg Outcome.ending (hsave .done)
  cases h with
  | unrendered failed =>
    rw [renderBus_nil] at failed
    cases failed
  | unsaved rendered failed =>
    rw [renderBus_nil] at rendered
    cases rendered
    cases hstored.symm.trans failed
  | turn rendered stored whole saved others =>
    rw [renderBus_nil] at rendered
    cases rendered
    cases hstored.symm.trans stored
    cases others
    exact ⟨rfl, rfl, rfl⟩

/-- A new file in the current folder is saved. -/
theorem follow_save_filesOf (hnames : (filesOf text).namesOf file = .ok ["w", file])
    (hfree : FileTree.entry? (filesOf text) ["w", file] = none) (hfolder : Path.folderText file = "")
    (hfile : Wav.fileOf file 44100 [] = .ok (Wav.encode 44100 []))
    (hopened : Path.audioPath? file = some file) (next : Script) :
    (save .wave file 44100 [] next).follow (filesOf text) =
      next.follow ((filesOf text).put ["w", file] (.file (Wav.encode 44100 []))) := by
  have hwhole : AudioLibrary.wave.write file 44100 [] = .whole (Wav.encode 44100 []) := by
    simp only [AudioLibrary.wave, Wav.writeOf, hfile]
  apply follow_save hfolder hwhole hopened
  rw [FileTree.write?, hnames]
  simp only [hfree]

end

/-! ## The whole work -/

/-- **The outputs that are written are the first ones**, on whatever platform.

* What fails before the outputs have their turns leaves the tree as it was.
* Otherwise the outputs are rendered and saved in their order up to the first one that cannot
  be rendered or saved, or to the last.  Each that is saved puts what the library writes for its
  samples, at the sample rate of the arrangement, where its path leads, and there is no other
  change to the files; only an output that could not be saved may have changed the file of its
  own path.
* If the lines that are told can be, the program ends with zero exactly if all outputs were
  saved, and with one exactly for the failures that it reports.
* A lenient program never fails for want of an instrument. -/
theorem first_outputs_are_written (platform : Platform) (o : Options) (tree : FileTree) :
    let audio := platform.audio
    let outcome := (work platform o).follow tree
    let exitCode? := exitCode? platform.terminal outcome
    let IsOpened := AllShown platform.terminal.shown (opening platform.parsers o tree)
    (∀ failure, prepared platform.parsers o tree = .error failure →
      outcome.tree = tree ∧ exitCode? ≠ some 0 ∧
      (IsOpened → ClosingShown platform.terminal o.outputDir [] (some failure) →
        outcome.failure = some failure ∧
        (exitCode? = some 1 ↔ failure.message?.isSome = true))) ∧
    (∀ a notes, prepared platform.parsers o tree = .ok (a, notes) → IsOpened →
      ∃ turns failure,
        Course audio (sessionOf o a) notes o.outputDir a.rack tree a.outputs turns failure
          outcome.tree ∧
        turns.map (fun turn => turn.take.bus) = a.outputs.take turns.length ∧
        (failure = none ↔ turns.length = a.outputs.length) ∧
        (∀ turn ∈ turns, audio.write (outputPath o.outputDir turn.take.bus) a.sampleRate
          turn.take.samples.toList = .whole turn.content) ∧
        (∀ names, outcome.tree.file? names = filesAfter turns tree.file? names ∨
          ∃ f bus, failure = some f ∧ f.isOfSave = true ∧ a.outputs[turns.length]? = some bus ∧
            audioPlace? audio outcome.tree (outputPath o.outputDir bus) = some names) ∧
        (ClosingShown platform.terminal o.outputDir turns failure → outcome.failure = failure ∧
          (exitCode? = some 0 ↔ turns.length = a.outputs.length) ∧
          ∀ f, failure = some f → (exitCode? = some 1 ↔ f.message?.isSome = true))) ∧
    (o.lenient = true → ∀ program,
      outcome.failure ≠ some (.rendering (.missingInstrument program))) := by
  intro audio outcome code IsOpened
  refine ⟨?_, ?_, fun h => failure_ne_missingInstrument platform h tree⟩
  · intro failure h
    obtain ⟨hfailure, htree⟩ := work_of_prepared_eq_error h
    refine ⟨htree, ?_, ?_⟩
    · split at hfailure <;> exact exitCode?_ne_zero hfailure
    · intro hopening hclosing
      rw [if_pos hopening] at hfailure
      exact ⟨hfailure, exitCode?_eq_one_iff hfailure hclosing⟩
  · intro a notes h hopening
    obtain ⟨turns, failure, hcourse, htold⟩ := exists_course_work h hopening
    refine ⟨turns, failure, hcourse, hcourse.map_bus, hcourse.failure_eq_none_iff,
      hcourse.whole, hcourse.files, ?_⟩
    intro hclosing
    have hfailure : outcome.failure = failure := by
      cases failure with
      | some f => exact htold
      | none => exact htold.trans (if_pos hclosing)
    refine ⟨hfailure, ?_, ?_⟩
    · rw [← hcourse.failure_eq_none_iff]
      cases failure with
      | none =>
        have hzero : code = some 0 := by
          change exitCode? platform.terminal outcome = some 0
          rw [exitCode?, hfailure]
        exact iff_of_true hzero rfl
      | some f => exact iff_of_false (exitCode?_ne_zero hfailure) nofun
    · rintro f rfl
      exact exitCode?_eq_one_iff hfailure hclosing

/-- The document of an output without notes. -/
def plainText : String :=
  "\x7b\"outputs\":[\x7b\"output_file\":\"o.wav\",\"channels\":[]\x7d]\x7d"

/-- An output without notes is saved as a file without samples. -/
theorem first_outputs_are_written_silence :
    let outcome := (work .builtIn (optionsOf (some "s"))).follow (filesOf plainText)
    exitCode? .stripped outcome = some 0 ∧
      outcome.tree.file? ["w", "o.wav"] = some (Wav.encode 44100 []) := by
  intro outcome
  have hread : Document.Json.read plainText = .ok (.map [(.text "outputs", .list [.map [
      (.text "output_file", .ofText "o.wav"), (.text "channels", .list [])]])]) := rfl
  obtain ⟨hprepared, hopening⟩ := prepared_filesOf (by decide +kernel) hread
    (rfl : _ = Except.ok (oneFile "o.wav"))
  have hnames : (filesOf plainText).namesOf "o.wav" = .ok ["w", "o.wav"] :=
    (filesOf plainText).namesOf_of_plain (by decide +kernel : ∀ i < 5, _) (by decide +kernel)
      (by decide +kernel) (by decide +kernel)
  have hsave := follow_save_filesOf hnames rfl rfl rfl rfl
  have hpath : Path.ofText "o.wav" = ⟨0, ["o.wav"]⟩ :=
    FileTree.ofText_of_plain (by decide +kernel : ∀ i < 5, _) (by decide +kernel)
      (by decide +kernel) (by decide +kernel)
  obtain ⟨turns, failure, hcourse, _, hall, _, _, hending⟩ :=
    (first_outputs_are_written .builtIn (optionsOf (some "s")) (filesOf plainText)).2.1
      (oneFile "o.wav") [] hprepared hopening
  have hrate : (sessionOf (optionsOf (some "s")) (oneFile "o.wav")).sampleRate = 44100 := rfl
  obtain ⟨rfl, htree, hclosing⟩ := closing_of_course hrate hsave hcourse
  rw [hpath] at hclosing
  have hshown : ClosingShown .stripped (optionsOf (some "s")).outputDir turns none := by
    change AllShown shown? (closing none turns none)
    rw [hclosing]
    decide +kernel
  obtain ⟨_, hzero, _⟩ := hending hshown
  refine ⟨hzero.mpr (hall.mp rfl), ?_⟩
  rw [htree]
  rfl

/-- The document of nothing. -/
def nothingText : String := "\x7b\x7d"

/-- No output is left to be saved, and yet there is a failure: no score is given. -/
theorem failure_without_outputs :
    ∃ a, loaded .builtIn (optionsOf none) (filesOf nothingText) = .ok a ∧ a.outputs = [] ∧
      exitCode? .stripped ((work .builtIn (optionsOf none)).follow (filesOf nothingText)) =
        some 1 := by
  have hread : Document.Json.read nothingText = .ok (.map []) := rfl
  have hload : loaded .builtIn (optionsOf none) (filesOf nothingText) =
      .ok ⟨44100, true, none, "", [], [], [], [], []⟩ :=
    (loaded_filesOf none (by decide +kernel) hread).trans rfl
  have hprepared : prepared .builtIn (optionsOf none) (filesOf nothingText) = .error .noScore := by
    rw [prepared, hload]
    rfl
  have hopening : AllShown shown? (opening .builtIn (optionsOf none) (filesOf nothingText)) := by
    rw [opening, hload]
    decide +kernel
  obtain ⟨hfailure, -⟩ := @work_of_prepared_eq_error .builtIn _ _ _ hprepared
  have hopened : AllShown Platform.builtIn.terminal.shown
      (opening Platform.builtIn.parsers (optionsOf none) (filesOf nothingText)) := hopening
  rw [if_pos hopened] at hfailure
  have hclosing : ClosingShown .stripped none [] (some .noScore) := by
    change AllShown shown? (closing none [] (some .noScore))
    decide +kernel
  exact ⟨_, hload, rfl, (exitCode?_eq_one_iff hfailure hclosing).mpr rfl⟩

end Orchestrion.CommandLine

import Orchestrion.Proofs.Score.Pairing

set_option autoImplicit false

/-!
# Notes of some keys

The notes of a key come of the messages on its channel, and of these only of the note
messages of the key and of the programs that are chosen.  A score whose other messages
say nothing any more, at the times at which they stood, has the notes of the whole score
that are of these keys.  The two scores are played side by side: between two messages the
one is what is left of the other.
-/

namespace Orchestrion

/-! ## Messages that are left out -/

namespace Message

/-- The channel that a message is on. -/
def channel? : Message → Option Int
  | .noteOn channel _ _ => some channel
  | .noteOff channel _ _ => some channel
  | .programChange channel _ => some channel
  | .other => none

/-- The key of the note that a message is about. -/
def key? : Message → Option NoteKey
  | .noteOn channel pitch _ => some (channel, pitch)
  | .noteOff channel pitch _ => some (channel, pitch)
  | _ => none

/-- Whether a message is on no channel but certain ones. -/
def isOn (channels : Int → Bool) (m : Message) : Bool := m.channel?.all channels

/-- Whether a message is about no note but those of a key. -/
def isAbout (key : NoteKey) (m : Message) : Bool := m.key?.all (· == key)

end Message

/-- A message that is kept, or one that concerns no notes, at the same time. -/
def TimedMessage.keptIf {α : Type} (keep : Message → Bool) (m : TimedMessage α) : TimedMessage α :=
  if keep m.message then m else { m with message := .other }

/-- The key of a note. -/
def Note.key (n : Note) : NoteKey := (n.channel, n.pitch)

namespace Score

/-- The key of a note that has begun. -/
def OpenNote.key (n : OpenNote) : NoteKey := (n.channel, n.pitch)

theorem OpenNote.isOf_iff {n : OpenNote} {channel pitch : Int} :
    n.isOf channel pitch = true ↔ n.key = (channel, pitch) := by
  simp [isOf, key]

/-- The key of a note that a message of some role begins or ends. -/
def Role.key? : Role → Option NoteKey
  | .opening channel pitch _ => some (channel, pitch)
  | .closing channel pitch => some (channel, pitch)
  | _ => none

theorem Role.key?_of {m : Message} {key : NoteKey} (h : (Role.of m).key? = some key) :
    m.key? = some key := by
  cases m with
  | noteOn channel pitch velocity =>
    rw [Role.of] at h
    split at h
    · exact h
    · split at h
      · exact h
      · cases h
  | noteOff channel pitch velocity => exact h
  | programChange channel program => cases h
  | other => cases h

theorem Role.of_eq_choice {m : Message} {channel program : Int}
    (h : Role.of m = .choice channel program) : m = .programChange channel program := by
  cases m with
  | noteOn c pitch velocity =>
    rw [Role.of] at h
    split at h
    · cases h
    · split at h <;> cases h
  | noteOff c pitch velocity => cases h
  | programChange c p =>
    cases h
    rfl
  | other => cases h

/-! ## What messages do -/

section

variable {α : Type} (s : State α) {channel pitch : Int}

theorem State.programOf_choice (channel program other now : Int) :
    (s.play now (.choice channel program)).programOf other =
      if other = channel then program else s.programOf other := by
  simp only [State.play, State.programOf, List.lookup_cons]
  by_cases heq : other = channel
  · simp [heq]
  · simp [heq, beq_false_of_ne heq]

variable {s}

theorem State.play_closing_of_none (h : s.playing.find? (OpenNote.isOf channel pitch) = none)
    (now : Int) : s.play now (.closing channel pitch) =
      { s with warnings := .unmatchedEnd pitch channel :: s.warnings } := by
  simp only [State.play, h]

theorem State.play_closing_of_some {n : OpenNote}
    (h : s.playing.find? (OpenNote.isOf channel pitch) = some n) (now : Int) :
    s.play now (.closing channel pitch) =
      { s with
        playing := s.playing.eraseP (OpenNote.isOf channel pitch)
        finished := n.finish now :: s.finished } := by
  simp only [State.play, h]

end

/-! ## Two scores side by side -/

variable {α : Type} {chosen : NoteKey → Bool} {keep : Message → Bool}

/-- A score that is what is left of another one when only the notes of the chosen keys
are.  The programs of other channels do not matter. -/
structure Restricts (chosen : NoteKey → Bool) (whole part : State α) : Prop where
  seconds : part.seconds = whole.seconds
  programs : ∀ key, chosen key = true → part.programOf key.1 = whole.programOf key.1
  playing : part.playing = whole.playing.filter fun n => chosen n.key
  finished : part.finished = whole.finished.filter fun n => chosen n.key

namespace Restricts

variable {whole part : State α} {role : Role}

theorem withSeconds (h : Restricts chosen whole part) (seconds : α) :
    Restricts chosen { whole with seconds := seconds } { part with seconds := seconds } :=
  ⟨rfl, h.programs, h.playing, h.finished⟩

/-- The open notes of a chosen key are the same in both scores. -/
theorem find?_playing (h : Restricts chosen whole part) {channel pitch : Int}
    (hkey : chosen (channel, pitch) = true) :
    part.playing.find? (OpenNote.isOf channel pitch) =
      whole.playing.find? (OpenNote.isOf channel pitch) := by
  rw [h.playing, List.find?_filter]
  congr 1
  funext n
  by_cases hn : n.isOf channel pitch = true
  · simp [hn, OpenNote.isOf_iff.mp hn, hkey]
  · simp [hn]

/-- What is said about a chosen key is done to both scores. -/
theorem play_both (h : Restricts chosen whole part) (now : Int)
    (hkey : ∀ key, role.key? = some key → chosen key = true) :
    Restricts chosen (whole.play now role) (part.play now role) := by
  cases role with
  | unrelated => exact h
  | choice channel program =>
    refine ⟨h.seconds, ?_, h.playing, h.finished⟩
    intro key hchosen
    rw [State.programOf_choice, State.programOf_choice, h.programs key hchosen]
  | opening channel pitch velocity =>
    have hchosen : chosen (channel, pitch) = true := hkey _ rfl
    refine ⟨h.seconds, h.programs, ?_, h.finished⟩
    simp only [State.play, h.playing, h.programs _ hchosen]
    rw [List.filter_cons_of_pos (by exact hchosen)]
  | closing channel pitch =>
    have hchosen : chosen (channel, pitch) = true := hkey _ rfl
    have hsame := h.find?_playing hchosen
    cases hfind : whole.playing.find? (OpenNote.isOf channel pitch) with
    | none =>
      rw [State.play_closing_of_none hfind, State.play_closing_of_none (hsame.trans hfind)]
      exact ⟨h.seconds, h.programs, h.playing, h.finished⟩
    | some n =>
      have hn : n.key = (channel, pitch) := OpenNote.isOf_iff.mp (List.find?_some hfind)
      rw [State.play_closing_of_some hfind, State.play_closing_of_some (hsame.trans hfind)]
      refine ⟨h.seconds, h.programs, ?_, ?_⟩
      · simp only [h.playing, List.eraseP_filter]
        congr 2
        funext n
        by_cases hn : n.isOf channel pitch = true
        · simp [hn, OpenNote.isOf_iff.mp hn, hchosen]
        · simp [hn]
      · have hfinish : chosen (n.finish now).key = true := by
          rw [show (n.finish now).key = n.key from rfl, hn, hchosen]
        simp only [h.finished]
        rw [List.filter_cons_of_pos (by exact hfinish)]

/-- What is said about no chosen key leaves the smaller score as it is. -/
theorem play_whole (h : Restricts chosen whole part) (now : Int)
    (hkey : ∀ key, role.key? = some key → chosen key = false)
    (hprogram : ∀ channel program, role = .choice channel program →
      ∀ key, chosen key = true → key.1 ≠ channel) :
    Restricts chosen (whole.play now role) part := by
  cases role with
  | unrelated => exact h
  | choice channel program =>
    refine ⟨h.seconds, ?_, h.playing, h.finished⟩
    intro key hchosen
    rw [State.programOf_choice, if_neg (hprogram channel program rfl key hchosen)]
    exact h.programs key hchosen
  | opening channel pitch velocity =>
    have hchosen : ¬chosen (channel, pitch) = true := by simp [hkey _ rfl]
    refine ⟨h.seconds, h.programs, ?_, h.finished⟩
    simp only [State.play]
    rw [List.filter_cons_of_neg (by exact hchosen)]
    exact h.playing
  | closing channel pitch =>
    have hchosen : ¬chosen (channel, pitch) = true := by simp [hkey _ rfl]
    cases hfind : whole.playing.find? (OpenNote.isOf channel pitch) with
    | none =>
      rw [State.play_closing_of_none hfind]
      exact ⟨h.seconds, h.programs, h.playing, h.finished⟩
    | some n =>
      have hn : n.key = (channel, pitch) := OpenNote.isOf_iff.mp (List.find?_some hfind)
      rw [State.play_closing_of_some hfind]
      refine ⟨h.seconds, h.programs, ?_, ?_⟩
      · have hdisjoint : ∀ n : OpenNote, n.isOf channel pitch = true → ¬chosen n.key = true := by
          intro n hn
          rw [OpenNote.isOf_iff.mp hn]
          exact hchosen
        simp only [filter_eraseP_of_disjoint hdisjoint]
        exact h.playing
      · have hfinish : ¬chosen (n.finish now).key = true := by
          rw [show (n.finish now).key = n.key from rfl, hn]
          exact hchosen
        simp only
        rw [List.filter_cons_of_neg (by exact hfinish)]
        exact h.finished

end Restricts

/-- Messages are kept in favour of the chosen keys: of the note messages those of a
chosen key and no others, and the programs of all channels that have a chosen key. -/
structure Favours (keep : Message → Bool) (chosen : NoteKey → Bool) : Prop where
  note : ∀ m key, m.key? = some key → keep m = chosen key
  program : ∀ channel program, keep (.programChange channel program) = false →
    ∀ key, chosen key = true → key.1 ≠ channel

theorem Favours.of_channels (channels : Int → Bool) :
    Favours (Message.isOn channels) fun key => channels key.1 where
  note m key h := by
    cases m <;> cases h <;> rfl
  program channel program h := by
    rintro key hchosen rfl
    rw [show Message.isOn channels (.programChange key.1 program) = channels key.1 from rfl,
      hchosen] at h
    cases h

theorem Favours.of_key (key : NoteKey) : Favours (Message.isAbout key) (· == key) where
  note m key' h := by
    cases m <;> cases h <;> rfl
  program channel program h := by cases h

namespace Restricts

/-- One more message, in both scores or in the whole one. -/
theorem play {whole part : State α} (h : Restricts chosen whole part)
    (hkeep : Favours keep chosen) (now : Int) (m : TimedMessage α) :
    Restricts chosen (whole.play now (Role.of m.message))
      (part.play now (Role.of (m.keptIf keep).message)) := by
  unfold TimedMessage.keptIf
  cases hm : keep m.message with
  | true =>
    simp only [if_true]
    refine h.play_both now fun key hrole => ?_
    rw [← hkeep.note _ key (Role.key?_of hrole), hm]
  | false =>
    refine h.play_whole now (fun key hrole => ?_) fun channel program hrole => ?_
    · rw [← hkeep.note _ key (Role.key?_of hrole), hm]
    · rw [Role.of_eq_choice hrole] at hm
      exact hkeep.program channel program hm

variable [Scalar α]

/-- All messages: the times are the same, so both scores come to an end or neither
does. -/
theorem play_all {whole part : State α} (h : Restricts chosen whole part)
    (hkeep : Favours keep chosen) (rate : Int) (messages : List (TimedMessage α)) :
    (∃ fault, Score.play rate whole messages = .error fault ∧
        Score.play rate part (messages.map (TimedMessage.keptIf keep)) = .error fault) ∨
      ∃ whole' part', Score.play rate whole messages = .ok whole' ∧
        Score.play rate part (messages.map (TimedMessage.keptIf keep)) = .ok part' ∧
        Restricts chosen whole' part' := by
  induction messages generalizing whole part with
  | nil => exact .inr ⟨whole, part, rfl, rfl, h⟩
  | cons m rest ih =>
    have hdelta : (m.keptIf keep).delta = m.delta := by
      unfold TimedMessage.keptIf
      split <;> rfl
    simp only [List.map_cons, Score.play, hdelta, h.seconds]
    cases samplesOf (whole.seconds + m.delta) rate with
    | error fault => exact .inl ⟨fault, rfl, rfl⟩
    | ok now => exact ih ((h.withSeconds (whole.seconds + m.delta)).play hkeep now m)

/-- The notes of the messages that are kept are those of the chosen keys. -/
theorem notes_eq_filter (hkeep : Favours keep chosen) (messages : List (TimedMessage α))
    (rate : Int) :
    (notes (messages.map (TimedMessage.keptIf keep)) rate).map Prod.fst =
      (notes messages rate).map fun found => found.1.filter fun n => chosen n.key := by
  have hinitial : Restricts chosen (State.initial : State α) State.initial :=
    ⟨rfl, fun _ _ => rfl, rfl, rfl⟩
  unfold notes
  rcases hinitial.play_all hkeep rate messages with
    ⟨fault, hwhole, hpart⟩ | ⟨whole, part, hwhole, hpart, h⟩
  · rw [hwhole, hpart]
    rfl
  · rw [hwhole, hpart]
    simp only [Except.map, h.finished, List.filter_reverse]

end Restricts

/-- **Channels do not disturb each other, and neither do keys.**  When all messages on
other channels say nothing any more, at the same times, the notes are those of the whole
score on the channels that are left, in the same order and unchanged.  The same holds of
the note messages of a single key.  A time that cannot be computed is the same fault in
either score. -/
theorem notes_of_channels {α : Type} [Scalar α] (messages : List (TimedMessage α)) (rate : Int) :
    (∀ channels : Int → Bool,
      (notes (messages.map (TimedMessage.keptIf (Message.isOn channels))) rate).map Prod.fst =
        (notes messages rate).map fun found => found.1.filter fun n => channels n.channel) ∧
    (∀ key : NoteKey,
      (notes (messages.map (TimedMessage.keptIf (Message.isAbout key))) rate).map Prod.fst =
        (notes messages rate).map fun found => found.1.filter fun n => n.key == key) := by
  constructor
  · intro channels
    exact Restricts.notes_eq_filter (.of_channels channels) messages rate
  · intro key
    exact Restricts.notes_eq_filter (.of_key key) messages rate

end Score

end Orchestrion

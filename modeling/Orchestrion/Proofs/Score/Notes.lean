import Orchestrion.Proofs.Score.Pairing
import Mathlib.Data.List.Forall2

set_option autoImplicit false

/-!
# The notes of a list of messages

The notes are those that the pairs of openings and closings make, in the order of
the closings.  A closing without a partner is warned of, and so are the openings
that are left.  Only the times can fail to be computed.
-/

namespace Orchestrion

/-- The program that a message chooses for a channel. -/
def Message.chosen? (channel : Int) : Message → Option Int
  | .programChange c program => if c = channel then some program else none
  | _ => none

namespace Score

/-! ## What the notes are -/

/-- The program of a channel before an index: the last one chosen, or zero. -/
def programBefore (ms : List Message) (i : Nat) (channel : Int) : Int :=
  ((ms.take i).filterMap (Message.chosen? channel)).getLast?.getD 0

/-- The note of a pair, when the samples of the messages are known: its key, its
velocity, its start and its program are those of the opening. -/
structure NoteOf (ms : List Message) (nows : List Int) (pair : Nat × Nat) (n : Note) : Prop where
  opening : ms[pair.1]? = some (.noteOn n.channel n.pitch n.velocity)
  program : n.program = programBefore ms pair.1 n.channel
  start : nows[pair.1]? = some n.start
  finish : nows[pair.2]? = some n.finish

/-- The keys of the closings without a partner. -/
def strayEnds (ms : List Message) : List NoteKey :=
  (List.range ms.length).filterMap fun j => if partner? ms j = none then closedAt ms j else none

/-- What is warned of: the closings without a partner, then the openings that are
left. -/
def warningsOf (ms : List Message) (left : Nat) : List Warning :=
  (strayEnds ms).map (fun key => .unmatchedEnd key.2 key.1) ++
    if left = 0 then [] else [.unendedNotes left]

/-- The number of openings. -/
def openings (ms : List Message) : Nat := ms.countP fun m => m.opened?.isSome

variable {α : Type} [Scalar α]

/-- The samples of the messages, from a time on: their delays are added up, and
each sum is rounded. -/
def clock (rate : Int) (seconds : α) (messages : List (TimedMessage α)) :
    Except ArithFault (List Int) :=
  ((messages.map TimedMessage.delta).scanl (· + ·) seconds).tail.mapM fun s => samplesOf s rate

/-! ## One message more -/

variable {ms : List Message} {m : Message} {key : NoteKey} {nows : List Int} {now : Int}
  {i : Nat}

theorem partner?_length_eq_none (hclosed : m.closed? = none) :
    partner? (ms ++ [m]) ms.length = none := by
  refine partner?_eq_none_iff.mpr fun i hpaired => ?_
  obtain ⟨_, key, _, hclosed', _⟩ := hpaired
  rw [closedAt_length, hclosed] at hclosed'
  cases hclosed'

theorem pairs_concat_of_partner?_none (h : partner? (ms ++ [m]) ms.length = none) :
    pairs (ms ++ [m]) = pairs ms := by
  rw [pairs_concat, h]
  exact List.append_nil _

theorem strayEnds_concat :
    strayEnds (ms ++ [m]) = strayEnds ms ++
      (if partner? (ms ++ [m]) ms.length = none then m.closed? else none).toList := by
  have hold : ∀ j ∈ List.range ms.length,
      (if partner? (ms ++ [m]) j = none then closedAt (ms ++ [m]) j else none) =
        if partner? ms j = none then closedAt ms j else none := by
    intro j hj
    rw [partner?_append (List.mem_range.mp hj), closedAt_append (List.mem_range.mp hj)]
  have hlast : closedAt (ms ++ [m]) ms.length = m.closed? := closedAt_length
  rw [strayEnds, strayEnds, List.length_append, List.length_singleton, List.range_succ,
    List.filterMap_append, List.filterMap_congr hold, ← hlast]
  rfl

theorem programBefore_append (ms' : List Message) (h : i ≤ ms.length) (channel : Int) :
    programBefore (ms ++ ms') i channel = programBefore ms i channel := by
  rw [programBefore, programBefore, List.take_append_of_le_length h]

theorem programBefore_concat (channel : Int) :
    programBefore (ms ++ [m]) (ms.length + 1) channel =
      (m.chosen? channel).getD (programBefore ms ms.length channel) := by
  rw [programBefore, programBefore, List.take_of_length_le (by simp), List.take_length,
    List.filterMap_append]
  cases hchosen : m.chosen? channel <;> simp [hchosen]

theorem NoteOf.concat {pair : Nat × Nat} {n : Note} (h : NoteOf ms nows pair n) :
    NoteOf (ms ++ [m]) (nows ++ [now]) pair n where
  opening := by
    rw [List.getElem?_append_left (List.getElem?_eq_some_iff.mp h.opening).1]
    exact h.opening
  program := by
    rw [programBefore_append _ (Nat.le_of_lt (List.getElem?_eq_some_iff.mp h.opening).1)]
    exact h.program
  start := by
    rw [List.getElem?_append_left (List.getElem?_eq_some_iff.mp h.start).1]
    exact h.start
  finish := by
    rw [List.getElem?_append_left (List.getElem?_eq_some_iff.mp h.finish).1]
    exact h.finish

/-- The note that the opening at an index has begun. -/
structure BegunAt (ms : List Message) (nows : List Int) (i : Nat) (n : OpenNote) : Prop where
  opening : ms[i]? = some (.noteOn n.channel n.pitch n.velocity)
  audible : 0 < n.velocity
  program : n.program = programBefore ms i n.channel
  start : nows[i]? = some n.start

namespace BegunAt

variable {n : OpenNote}

theorem concat (h : BegunAt ms nows i n) : BegunAt (ms ++ [m]) (nows ++ [now]) i n where
  opening := by
    rw [List.getElem?_append_left (List.getElem?_eq_some_iff.mp h.opening).1]
    exact h.opening
  audible := h.audible
  program := by
    rw [programBefore_append _ (Nat.le_of_lt (List.getElem?_eq_some_iff.mp h.opening).1)]
    exact h.program
  start := by
    rw [List.getElem?_append_left (List.getElem?_eq_some_iff.mp h.start).1]
    exact h.start

/-- A note that has begun is of the key of its opening. -/
theorem opensAt_eq (h : BegunAt ms nows i n) (key : NoteKey) :
    opensAt ms key i = n.isOf key.1 key.2 := by
  rw [opensAt, openedAt, h.opening, Option.bind_some, Message.opened?, if_pos h.audible,
    OpenNote.isOf, Bool.eq_iff_iff]
  simp [Prod.ext_iff]

end BegunAt

/-- The first element with a property and what is left without it, in two lists
whose elements have the property together. -/
theorem forall₂_eraseP {β γ : Type} {R : β → γ → Prop} {p : β → Bool} {q : γ → Bool}
    {l : List β} {l' : List γ} (h : List.Forall₂ R l l') (hpq : ∀ b c, R b c → p b = q c) :
    (l.find? p = none ∧ l'.find? q = none) ∨
      ∃ b c, l.find? p = some b ∧ l'.find? q = some c ∧ R b c ∧
        List.Forall₂ R (l.eraseP p) (l'.eraseP q) := by
  induction h with
  | nil => exact .inl ⟨rfl, rfl⟩
  | @cons b c l l' hbc hrest ih =>
    cases hb : p b with
    | true =>
      have hc : q c = true := by rw [← hpq b c hbc, hb]
      refine .inr ⟨b, c, List.find?_cons_of_pos hb, List.find?_cons_of_pos hc, hbc, ?_⟩
      rw [List.eraseP_cons_of_pos hb, List.eraseP_cons_of_pos hc]
      exact hrest
    | false =>
      have hc : q c = false := by rw [← hpq b c hbc, hb]
      have hb' : ¬p b = true := by simp [hb]
      have hc' : ¬q c = true := by simp [hc]
      rw [List.find?_cons_of_neg hb', List.find?_cons_of_neg hc', List.eraseP_cons_of_neg hb',
        List.eraseP_cons_of_neg hc']
      refine ih.imp_right ?_
      rintro ⟨b', c', hb'', hc'', hR, herase⟩
      exact ⟨b', c', hb'', hc'', hR, .cons hbc herase⟩

/-! ## The state between two messages -/

/-- What is known after some messages: the programs, the notes of the openings that
wait, the notes of the pairs, and the closings without a partner. -/
structure Heard (ms : List Message) (nows : List Int) (s : State α) : Prop where
  length_eq : nows.length = ms.length
  programs : ∀ channel, s.programOf channel = programBefore ms ms.length channel
  playing : ∃ left, Waiting ms left ∧ List.Forall₂ (BegunAt ms nows) left s.playing
  finished : List.Forall₂ (NoteOf ms nows) (pairs ms) s.finished.reverse
  warnings : s.warnings.reverse = (strayEnds ms).map fun key => .unmatchedEnd key.2 key.1
  count : openings ms = s.playing.length + s.finished.length

namespace Heard

variable {s : State α}

theorem initial : Heard [] [] (State.initial : State α) where
  length_eq := rfl
  programs := fun _ => rfl
  playing := ⟨[], .nil, .nil⟩
  finished := .nil
  warnings := rfl
  count := rfl

omit [Scalar α] in
/-- The time does not matter. -/
theorem withSeconds (h : Heard ms nows s) (seconds : α) :
    Heard ms nows { s with seconds := seconds } :=
  ⟨h.length_eq, h.programs, h.playing, h.finished, h.warnings, h.count⟩

omit [Scalar α] in
/-- A message that leaves the notes as they are. -/
theorem skip {left : List Nat} {programs : List (Int × Int)} {warnings : List Warning}
    (h : Heard ms nows s) (hopened : m.opened? = none)
    (hpartner : partner? (ms ++ [m]) ms.length = none) (hleft : Waiting (ms ++ [m]) left)
    (hbegun : List.Forall₂ (BegunAt ms nows) left s.playing)
    (hprograms : ∀ channel, (List.lookup channel programs).getD 0 =
      (m.chosen? channel).getD (s.programOf channel))
    (hwarnings : warnings.reverse = s.warnings.reverse ++
      m.closed?.toList.map fun key => .unmatchedEnd key.2 key.1) :
    Heard (ms ++ [m]) (nows ++ [now]) { s with programs := programs, warnings := warnings } where
  length_eq := by
    rw [List.length_append, List.length_append, h.length_eq]
    rfl
  programs := by
    intro channel
    rw [List.length_append, List.length_singleton, programBefore_concat, ← h.programs,
      ← hprograms channel]
    rfl
  playing := ⟨left, hleft, hbegun.imp fun _ _ hn => hn.concat⟩
  finished := by
    rw [pairs_concat_of_partner?_none hpartner]
    exact h.finished.imp fun _ _ hn => hn.concat
  warnings := by
    rw [strayEnds_concat, if_pos hpartner, List.map_append, ← h.warnings, ← hwarnings]
  count := by
    rw [openings, List.countP_append, List.countP_singleton, hopened]
    exact h.count

omit [Scalar α] in
/-- A note that begins. -/
theorem opening {channel pitch velocity : Int} (h : Heard ms nows s) (hvelocity : 0 < velocity) :
    Heard (ms ++ [.noteOn channel pitch velocity]) (nows ++ [now])
      (s.play now (.opening channel pitch velocity)) := by
  have hopened : (Message.noteOn channel pitch velocity).opened? = some (channel, pitch) :=
    if_pos hvelocity
  have hclosed := Message.closed?_eq_none_of_opened? hopened
  have hpartner : partner? (ms ++ [.noteOn channel pitch velocity]) ms.length = none :=
    partner?_length_eq_none hclosed
  obtain ⟨left, hleft, hbegun⟩ := h.playing
  constructor
  case length_eq =>
    rw [List.length_append, List.length_append, h.length_eq]
    rfl
  case programs =>
    intro c
    rw [List.length_append, List.length_singleton, programBefore_concat]
    exact h.programs c
  case playing =>
    refine ⟨_, hleft.opening hopened, .cons ?_ (hbegun.imp fun _ _ hn => hn.concat)⟩
    refine ⟨by simp, hvelocity, ?_, by simp [← h.length_eq]⟩
    rw [programBefore_append _ (Nat.le_refl _)]
    exact h.programs channel
  case finished =>
    rw [pairs_concat_of_partner?_none hpartner]
    exact h.finished.imp fun _ _ hn => hn.concat
  case warnings =>
    rw [strayEnds_concat, hclosed, ite_self, Option.toList_none, List.append_nil]
    exact h.warnings
  case count =>
    have hcount := h.count
    rw [openings] at hcount ⊢
    rw [List.countP_append, List.countP_singleton, hopened, hcount, State.play]
    simp only [List.length_cons, Option.isSome_some, if_true]
    omega

omit [Scalar α] in
/-- A note that ends, or an end that is warned of. -/
theorem closing {channel pitch : Int} (h : Heard ms nows s)
    (hclosed : m.closed? = some (channel, pitch)) :
    Heard (ms ++ [m]) (nows ++ [now]) (s.play now (.closing channel pitch)) := by
  have hopened : m.opened? = none := Message.opened?_eq_none_of_closed? hclosed
  have hchosen : ∀ c, m.chosen? c = none := by
    intro c
    cases m with
    | programChange c' program => cases hclosed
    | _ => rfl
  obtain ⟨left, hleft, hbegun⟩ := h.playing
  rcases forall₂_eraseP hbegun fun i n hn => hn.opensAt_eq (channel, pitch) with
    ⟨hnone, hnone'⟩ | ⟨i, n, hsome, hsome', hn, herase⟩
  · have hpartner := partner?_eq_none_iff.mpr (hleft.not_paired_of_find? hclosed hnone)
    have hskip : Waiting (ms ++ [m]) left := by
      refine hleft.skip hopened fun key hkey => ?_
      cases hclosed.symm.trans hkey
      exact hnone
    rw [State.play, hnone']
    refine h.skip hopened hpartner hskip hbegun (fun c => ?_) ?_
    · rw [hchosen]
      rfl
    · rw [hclosed, List.reverse_cons]
      rfl
  · have hpartner := partner?_eq_some_iff.mpr (hleft.paired_of_find? hclosed hsome)
    rw [State.play, hsome']
    constructor
    case length_eq =>
      rw [List.length_append, List.length_append, h.length_eq]
      rfl
    case programs =>
      intro c
      rw [List.length_append, List.length_singleton, programBefore_concat, hchosen]
      exact h.programs c
    case playing =>
      exact ⟨_, hleft.closing hclosed hsome, herase.imp fun _ _ hn => hn.concat⟩
    case finished =>
      rw [pairs_concat, hpartner, List.reverse_cons]
      refine List.rel_append (h.finished.imp fun _ _ hn => hn.concat) (.cons ?_ .nil)
      have hbegun' : BegunAt (ms ++ [m]) (nows ++ [now]) i n := hn.concat
      exact ⟨hbegun'.opening, hbegun'.program, hbegun'.start,
        by simp [← h.length_eq, OpenNote.finish]⟩
    case warnings =>
      rw [strayEnds_concat, hpartner, if_neg nofun, Option.toList_none, List.append_nil]
      exact h.warnings
    case count =>
      have hcount := h.count
      have hmem := List.mem_of_find?_eq_some hsome'
      have hpos := List.length_pos_of_mem hmem
      rw [openings] at hcount ⊢
      rw [List.countP_append, List.countP_singleton, hopened, hcount]
      rw [List.length_eraseP_of_mem hmem (List.find?_some hsome')]
      simp only [List.length_cons, Option.isSome_none, Bool.false_eq_true, if_false]
      omega

omit [Scalar α] in
/-- What a message does to the score is what it does to the brackets. -/
theorem play (h : Heard ms nows s) (now : Int) (m : Message) :
    Heard (ms ++ [m]) (nows ++ [now]) (s.play now (Role.of m)) := by
  have hskip : ∀ {m : Message}, m.opened? = none → m.closed? = none →
      partner? (ms ++ [m]) ms.length = none ∧
        ∃ left, Waiting (ms ++ [m]) left ∧ List.Forall₂ (BegunAt ms nows) left s.playing := by
    intro m hopened hclosed
    obtain ⟨left, hleft, hbegun⟩ := h.playing
    refine ⟨partner?_length_eq_none hclosed, left, hleft.skip hopened ?_, hbegun⟩
    rw [hclosed]
    exact nofun
  cases m with
  | noteOn channel pitch velocity =>
    rw [Role.of]
    split
    · exact h.opening ‹_›
    · rename_i hpos
      split
      · exact h.closing (if_pos ‹_›)
      · rename_i hzero
        obtain ⟨hpartner, left, hleft, hbegun⟩ :=
          hskip (m := .noteOn channel pitch velocity) (if_neg hpos) (if_neg hzero)
        exact h.skip (if_neg hpos) hpartner hleft hbegun (fun _ => rfl)
          (by rw [show (Message.noteOn channel pitch velocity).closed? = none from if_neg hzero]
              exact (List.append_nil _).symm)
  | noteOff channel pitch velocity => exact h.closing rfl
  | programChange channel program =>
    obtain ⟨hpartner, left, hleft, hbegun⟩ := hskip (m := .programChange channel program) rfl rfl
    refine h.skip rfl hpartner hleft hbegun (fun c => ?_) (List.append_nil _).symm
    rw [List.lookup_cons, Message.chosen?]
    by_cases hc : channel = c
    · simp [hc]
    · rw [if_neg hc, beq_false_of_ne (Ne.symm hc)]
      rfl
  | other =>
    obtain ⟨hpartner, left, hleft, hbegun⟩ := hskip (m := .other) rfl rfl
    exact h.skip rfl hpartner hleft hbegun (fun _ => rfl) (List.append_nil _).symm

end Heard

/-! ## All messages -/

/-- A message that closes a key ends a note of it. -/
theorem Role.of_eq_closing (h : m.closed? = some key) : Role.of m = .closing key.1 key.2 := by
  cases m with
  | noteOn channel pitch velocity =>
    rw [Message.closed?, Option.ite_none_right_eq_some] at h
    obtain ⟨hzero, heq⟩ := h
    cases heq
    rw [Role.of, if_neg (by omega), if_pos hzero]
  | noteOff channel pitch velocity =>
    cases h
    rfl
  | programChange channel program => cases h
  | other => cases h

omit [Scalar α] in
theorem State.seconds_play (s : State α) (now : Int) (role : Role) :
    (s.play now role).seconds = s.seconds := by
  cases role with
  | closing channel pitch =>
    rw [State.play]
    split <;> rfl
  | _ => rfl

theorem clock_cons (rate : Int) (seconds : α) (m : TimedMessage α)
    (rest : List (TimedMessage α)) :
    clock rate seconds (m :: rest) =
      (samplesOf (seconds + m.delta) rate).bind fun now =>
        (clock rate (seconds + m.delta) rest).map (now :: ·) := by
  have hscan : ∀ (x : α) (l : List α),
      l.scanl (· + ·) x = x :: (l.scanl (· + ·) x).tail := by
    intro x l
    cases l <;> simp
  rw [clock, List.map_cons, List.scanl_cons, List.tail_cons, hscan, List.mapM_cons]
  cases samplesOf (seconds + m.delta) rate with
  | error fault => rfl
  | ok now =>
    simp only [clock, Except.bind, Except.map, bind, pure, Except.pure]

/-- What holds between two messages holds after the last one, unless a time cannot
be computed. -/
theorem play_heard (rate : Int) {s : State α} (h : Heard ms nows s)
    (rest : List (TimedMessage α)) :
    match clock rate s.seconds rest with
    | .error fault => play rate s rest = .error fault
    | .ok nows' => ∃ s', play rate s rest = .ok s' ∧
        Heard (ms ++ rest.map TimedMessage.message) (nows ++ nows') s' := by
  induction rest generalizing ms nows s with
  | nil => exact ⟨s, rfl, by simpa using h⟩
  | cons m rest ih =>
    rw [clock_cons]
    unfold play
    simp only
    cases hnow : samplesOf (s.seconds + m.delta) rate with
    | error fault => rfl
    | ok now =>
      have hrest := ih ((h.withSeconds (s.seconds + m.delta)).play now m.message)
      rw [State.seconds_play] at hrest
      simp only [Except.bind]
      cases hclock : clock rate (s.seconds + m.delta) rest with
      | error fault =>
        rw [hclock] at hrest
        exact hrest
      | ok nows' =>
        rw [hclock] at hrest
        simpa only [Except.map, List.append_assoc, List.map_cons, List.singleton_append] using hrest

/-- What is known after messages whose times could be computed. -/
theorem exists_heard {rate : Int} {messages : List (TimedMessage α)} {s : State α}
    (h : play rate State.initial messages = .ok s) :
    ∃ nows, Heard (messages.map TimedMessage.message) nows s := by
  have hplay := play_heard rate (Heard.initial (α := α)) messages
  cases hclock : clock rate (State.initial : State α).seconds messages with
  | error fault =>
    rw [hclock, h] at hplay
    cases hplay
  | ok nows =>
    rw [hclock, h] at hplay
    obtain ⟨s', hs', hheard⟩ := hplay
    cases hs'
    exact ⟨nows, hheard⟩

/-- A closing that has no partner is warned of, and nothing else happens. -/
theorem play_stray {rate : Int} {front : List (TimedMessage α)} {s : State α}
    (hplay : play rate State.initial front = .ok s) (hclosed : m.closed? = some key)
    (hstray : ∀ i, ¬Paired (front.map TimedMessage.message ++ [m]) i front.length) (now : Int) :
    s.play now (Role.of m) = { s with warnings := .unmatchedEnd key.2 key.1 :: s.warnings } := by
  obtain ⟨nows, hheard⟩ := exists_heard hplay
  obtain ⟨left, hleft, hbegun⟩ := hheard.playing
  rw [Role.of_eq_closing hclosed, State.play]
  rcases forall₂_eraseP hbegun fun i n hn => hn.opensAt_eq key with
    ⟨_, hnone⟩ | ⟨i, n, hsome, _, _, _⟩
  · rw [hnone]
  · have hpaired := hleft.paired_of_find? hclosed hsome
    rw [List.length_map] at hpaired
    exact absurd hpaired (hstray i)

/-- **The notes of a score are its pairs of brackets.**  When the times of the
messages can be computed, there is one note for each pair, in the order of the
closings; otherwise the fault is that of the first time that cannot.  A closing is
paired with the only opening of its key that has nothing of this key between but
what is balanced, no opening is used twice, and a closing has a partner just when
an opening of its key is left for it.  One without a partner is warned of and
changes nothing else.  The openings that are left are as many as there are openings
without a note. -/
theorem notes_pairing (messages : List (TimedMessage α)) (rate : Int) :
    let ms := messages.map TimedMessage.message
    (∀ fault, clock rate 0.0 messages = .error fault → notes messages rate = .error fault) ∧
    (∀ nows, clock rate 0.0 messages = .ok nows → ∃ found left,
      notes messages rate = .ok (found, warningsOf ms left) ∧
        List.Forall₂ (NoteOf ms nows) (pairs ms) found ∧ openings ms = found.length + left) ∧
    (pairs ms).Pairwise (fun p q => p.2 < q.2) ∧
    (∀ i j, (i, j) ∈ pairs ms ↔ Paired ms i j) ∧
    (∀ i i' j, Paired ms i j → Paired ms i' j → i = i') ∧
    (∀ i j j', Paired ms i j → Paired ms i j' → j = j') ∧
    (∀ j key, closedAt ms j = some key →
      ((∃ i, Paired ms i j) ↔ ∃ i < j, openedAt ms i = some key ∧ ∀ j' < j, ¬Paired ms i j')) ∧
    (∀ front m rest key, messages = front ++ m :: rest → m.message.closed? = some key →
      (∀ i, ¬Paired ms i front.length) → ∀ s, play rate State.initial front = .ok s →
        ∀ now, s.play now (Role.of m.message) =
          { s with warnings := .unmatchedEnd key.2 key.1 :: s.warnings }) := by
  intro ms
  have hplay := play_heard rate (Heard.initial (α := α)) messages
  refine ⟨?_, ?_, pairwise_pairs ms, fun _ _ => mem_pairs_iff,
    fun _ _ _ h h' => h.opening_unique h', fun _ _ _ h h' => h.closing_unique h',
    fun _ _ => exists_paired_iff, ?_⟩
  · intro fault hclock
    rw [show (State.initial : State α).seconds = 0.0 from rfl, hclock] at hplay
    rw [notes, hplay]
  · intro nows hclock
    rw [show (State.initial : State α).seconds = 0.0 from rfl, hclock] at hplay
    obtain ⟨s, hs, hheard⟩ := hplay
    simp only [List.nil_append] at hheard
    refine ⟨s.finished.reverse, s.playing.length, ?_, hheard.finished, ?_⟩
    · rw [notes, hs, warningsOf, ← hheard.warnings]
      simp only [List.isEmpty_iff, List.length_eq_zero_iff]
    · rw [hheard.count, List.length_reverse, Nat.add_comm]
  · rintro front m rest key rfl hclosed hstray s hs now
    refine play_stray hs hclosed (fun i hpaired => hstray i ?_) now
    simp only [ms, List.map_append, List.map_cons]
    rw [show ∀ (a : List Message) b c, a ++ b :: c = (a ++ [b]) ++ c by simp]
    exact (paired_append (by simp)).mpr hpaired

/-- A pitch that is struck twice is released twice, the later stroke first. -/
example : pairs [.noteOn 0 60 90, .noteOn 0 60 70, .noteOff 0 60 0, .noteOn 0 60 0] =
    [(1, 2), (0, 3)] := by
  decide

end Score

end Orchestrion

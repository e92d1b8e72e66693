import Orchestrion.Score.Matching
import Mathlib.Data.List.Basic

set_option autoImplicit false

/-!
# Messages as brackets

To a channel and a pitch, some messages are opening brackets and some are closing
ones.  A closing is paired with the latest opening before it such that the
messages between the two are balanced.  What is not closed yet can be written as
a stack, and every message does to the stack what it does to the score.
-/

namespace Orchestrion

/-! ## Openings and closings -/

/-- A channel and a pitch: what the beginning and the end of a note share. -/
abbrev NoteKey := Int × Int

namespace Message

/-- The key of the note that a message begins; a beginning has a velocity. -/
def opened? : Message → Option NoteKey
  | .noteOn channel pitch velocity => if 0 < velocity then some (channel, pitch) else none
  | _ => none

/-- The key of the note that a message ends: a beginning without velocity is an
end. -/
def closed? : Message → Option NoteKey
  | .noteOff channel pitch _ => some (channel, pitch)
  | .noteOn channel pitch velocity => if velocity = 0 then some (channel, pitch) else none
  | _ => none

/-- No message both begins a note and ends one. -/
theorem closed?_eq_none_of_opened? {m : Message} {key : NoteKey} (h : m.opened? = some key) :
    m.closed? = none := by
  cases m with
  | noteOn channel pitch velocity =>
    simp only [opened?, Option.ite_none_right_eq_some] at h
    simp only [closed?, ite_eq_right_iff, reduceCtorEq, imp_false]
    omega
  | noteOff channel pitch velocity => cases h
  | programChange channel program => cases h
  | other => cases h

theorem opened?_eq_none_of_closed? {m : Message} {key : NoteKey} (h : m.closed? = some key) :
    m.opened? = none := by
  cases hopened : m.opened? with
  | none => rfl
  | some key' =>
    rw [closed?_eq_none_of_opened? hopened] at h
    cases h

end Message

namespace Score

/-- The key of the note that the message at an index begins. -/
def openedAt (ms : List Message) (i : Nat) : Option NoteKey := ms[i]?.bind Message.opened?

/-- The key of the note that the message at an index ends. -/
def closedAt (ms : List Message) (j : Nat) : Option NoteKey := ms[j]?.bind Message.closed?

/-- The openings of a key that wait for a closing after some messages, when there
were `waiting` before them; `none` if a closing comes that no opening waits for. -/
def depth (key : NoteKey) (waiting : Nat) : List Message → Option Nat
  | [] => some waiting
  | m :: rest =>
    if m.opened? = some key then depth key (waiting + 1) rest
    else if m.closed? = some key then
      if waiting = 0 then none else depth key (waiting - 1) rest
    else depth key waiting rest

/-- Messages among which the openings and the closings of a key are balanced. -/
def Balanced (key : NoteKey) (ms : List Message) : Prop := depth key 0 ms = some 0

instance (key : NoteKey) (ms : List Message) : Decidable (Balanced key ms) :=
  inferInstanceAs (Decidable (_ = _))

/-- The messages strictly between two indices. -/
def between (ms : List Message) (i j : Nat) : List Message := (ms.take j).drop (i + 1)

/-- An opening and a closing of one key, with nothing of this key between them
but what is balanced. -/
def Paired (ms : List Message) (i j : Nat) : Prop :=
  i < j ∧ ∃ key ∈ openedAt ms i, closedAt ms j = some key ∧ Balanced key (between ms i j)

instance (ms : List Message) (i j : Nat) : Decidable (Paired ms i j) :=
  inferInstanceAs (Decidable (_ ∧ _))

/-- The latest opening that is paired with the closing at an index. -/
def partner? (ms : List Message) (j : Nat) : Option Nat :=
  (List.range j).reverse.find? fun i => Paired ms i j

/-- The pairs of openings and closings, in the order of the closings. -/
def pairs (ms : List Message) : List (Nat × Nat) :=
  (List.range ms.length).filterMap fun j => (partner? ms j).map fun i => (i, j)

/-! ## Depth -/

variable {key : NoteKey} {ms ms' : List Message} {m : Message} {i j k : Nat}

theorem depth_append (waiting : Nat) :
    depth key waiting (ms ++ ms') = (depth key waiting ms).bind fun w => depth key w ms' := by
  induction ms generalizing waiting with
  | nil => rfl
  | cons m rest ih =>
    simp only [List.cons_append, depth]
    split
    · exact ih _
    · split
      · split
        · rfl
        · exact ih _
      · exact ih _

/-- Openings that wait already go on waiting. -/
theorem depth_add {waiting result : Nat} (h : depth key waiting ms = some result) (extra : Nat) :
    depth key (waiting + extra) ms = some (result + extra) := by
  induction ms generalizing waiting with
  | nil =>
    cases h
    rfl
  | cons m rest ih =>
    rw [depth] at h ⊢
    split
    · rw [if_pos ‹_›] at h
      rw [Nat.add_right_comm]
      exact ih h
    · rw [if_neg ‹_›] at h
      split
      · rw [if_pos ‹_›] at h
        split at h
        · cases h
        · rw [if_neg (by omega), Nat.sub_add_comm (by omega)]
          exact ih h
      · rw [if_neg ‹_›] at h
        exact ih h

theorem depth_opening (h : m.opened? = some key) (waiting : Nat) :
    depth key waiting (m :: ms) = depth key (waiting + 1) ms := by
  rw [depth, if_pos h]

theorem depth_closing (h : m.closed? = some key) (waiting : Nat) :
    depth key (waiting + 1) (m :: ms) = depth key waiting ms := by
  have hopened : m.opened? ≠ some key := by simp [Message.opened?_eq_none_of_closed? h]
  rw [depth, if_neg hopened, if_pos h, if_neg (Nat.succ_ne_zero waiting), Nat.add_sub_cancel]

theorem depth_closing_zero (h : m.closed? = some key) : depth key 0 (m :: ms) = none := by
  have hopened : m.opened? ≠ some key := by simp [Message.opened?_eq_none_of_closed? h]
  rw [depth, if_neg hopened, if_pos h, if_pos rfl]

theorem depth_neutral (hopened : m.opened? ≠ some key) (hclosed : m.closed? ≠ some key)
    (waiting : Nat) : depth key waiting (m :: ms) = depth key waiting ms := by
  rw [depth, if_neg hopened, if_neg hclosed]

/-! ## Balanced messages -/

theorem Balanced.nil : Balanced key [] := rfl

theorem Balanced.concat (h : Balanced key ms) (hopened : m.opened? ≠ some key)
    (hclosed : m.closed? ≠ some key) : Balanced key (ms ++ [m]) := by
  rw [Balanced, depth_append, h, Option.bind_some, depth_neutral hopened hclosed]
  rfl

/-- A pair of brackets after balanced messages, with balanced messages inside. -/
theorem Balanced.enclose {m' : Message} (h : Balanced key ms) (hopened : m.opened? = some key)
    (h' : Balanced key ms') (hclosed : m'.closed? = some key) :
    Balanced key ((ms ++ m :: ms') ++ [m']) := by
  rw [Balanced, List.append_assoc, depth_append, h, Option.bind_some, List.cons_append,
    depth_opening hopened, depth_append, depth_add h', Option.bind_some, depth_closing hclosed]
  rfl

/-- No balanced messages end in balanced ones after an opening. -/
theorem Balanced.not_opening (h : Balanced key (ms ++ m :: ms')) (hopened : m.opened? = some key) :
    ¬Balanced key ms' := by
  intro h'
  rw [Balanced, depth_append] at h
  obtain ⟨waiting, _, hrest⟩ := Option.bind_eq_some_iff.mp h
  rw [depth_opening hopened, Nat.add_comm, ← Nat.zero_add (1 + waiting), depth_add h'] at hrest
  simp only [Option.some.injEq] at hrest
  omega

/-- No balanced messages begin with balanced ones before a closing. -/
theorem Balanced.not_closing (h : Balanced key (ms ++ m :: ms')) (hclosed : m.closed? = some key) :
    ¬Balanced key ms := by
  intro hfront
  rw [Balanced, depth_append, hfront, Option.bind_some, depth_closing_zero hclosed] at h
  cases h

/-! ## Messages between two indices -/

theorem openedAt_append (h : i < ms.length) : openedAt (ms ++ ms') i = openedAt ms i := by
  rw [openedAt, openedAt, List.getElem?_append_left h]

theorem closedAt_append (h : j < ms.length) : closedAt (ms ++ ms') j = closedAt ms j := by
  rw [closedAt, closedAt, List.getElem?_append_left h]

theorem openedAt_length : openedAt (ms ++ [m]) ms.length = m.opened? := by
  simp [openedAt]

theorem closedAt_length : closedAt (ms ++ [m]) ms.length = m.closed? := by
  simp [closedAt]

theorem lt_of_openedAt (h : openedAt ms i = some key) : i < ms.length := by
  obtain ⟨m, hm, _⟩ := Option.bind_eq_some_iff.mp h
  exact (List.getElem?_eq_some_iff.mp hm).1

theorem lt_of_closedAt (h : closedAt ms j = some key) : j < ms.length := by
  obtain ⟨m, hm, _⟩ := Option.bind_eq_some_iff.mp h
  exact (List.getElem?_eq_some_iff.mp hm).1

theorem between_append (h : j ≤ ms.length) : between (ms ++ ms') i j = between ms i j := by
  rw [between, between, List.take_append_of_le_length h]

/-- The message at an index divides the messages around it. -/
theorem between_split (hij : i < j) (hjk : j < k) (hm : ms[j]? = some m) :
    between ms i k = between ms i j ++ m :: between ms j k := by
  obtain ⟨hlt, rfl⟩ := List.getElem?_eq_some_iff.mp hm
  have hlength : (ms.take j).length = j := by
    rw [List.length_take]
    omega
  have hfront : ms.take k = ms.take j ++ ms[j] :: (ms.take k).drop (j + 1) := by
    have hlt' : j < (ms.take k).length := by
      rw [List.length_take]
      omega
    have htake : (ms.take k).take j = ms.take j := by
      rw [List.take_take, Nat.min_eq_left (Nat.le_of_lt hjk)]
    rw [← htake, ← List.getElem_take (h := hlt'), List.getElem_cons_drop]
    exact (List.take_append_drop j (ms.take k)).symm
  unfold between
  conv_lhs => rw [hfront]
  rw [List.drop_append_of_le_length (by omega)]

theorem between_succ (hij : i < j) (hm : ms[j]? = some m) :
    between ms i (j + 1) = between ms i j ++ [m] := by
  have hlength : (between ms j (j + 1)).length = 0 := by
    rw [between, List.length_drop, List.length_take]
    omega
  rw [between_split hij (Nat.lt_succ_self j) hm, List.length_eq_zero_iff.mp hlength]

theorem between_self_succ : between ms i (i + 1) = [] := by
  refine List.length_eq_zero_iff.mp ?_
  rw [between, List.length_drop, List.length_take]
  omega

/-! ## Pairs -/

theorem Paired.lt_length (h : Paired ms i j) : j < ms.length := by
  obtain ⟨_, key, _, hclosed, _⟩ := h
  exact lt_of_closedAt hclosed

/-- What comes later does not change the pairs. -/
theorem paired_append (h : j < ms.length) : Paired (ms ++ ms') i j ↔ Paired ms i j := by
  unfold Paired
  refine and_congr_right fun hij => ?_
  rw [openedAt_append (Nat.lt_trans hij h), closedAt_append h, between_append (Nat.le_of_lt h)]

/-- A closing has one partner. -/
theorem Paired.opening_unique (h : Paired ms i j) (h' : Paired ms k j) : i = k := by
  have hnot : ∀ {i k}, Paired ms i j → Paired ms k j → ¬i < k := by
    rintro i k ⟨_, key, _, hclosed, hbalanced⟩ ⟨hkj, key', hopened', hclosed', hbalanced'⟩ hik
    cases hclosed.symm.trans hclosed'
    obtain ⟨m, hm, hopened⟩ := Option.bind_eq_some_iff.mp hopened'
    rw [between_split hik hkj hm] at hbalanced
    exact hbalanced.not_opening hopened hbalanced'
  exact Nat.le_antisymm (Nat.le_of_not_lt (hnot h' h)) (Nat.le_of_not_lt (hnot h h'))

/-- An opening has one partner. -/
theorem Paired.closing_unique (h : Paired ms i j) (h' : Paired ms i k) : j = k := by
  have hnot : ∀ {j k}, Paired ms i j → Paired ms i k → ¬j < k := by
    rintro j k ⟨hij, key, hopened, hclosed, hbalanced⟩ ⟨_, key', hopened', _, hbalanced'⟩ hjk
    cases hopened.symm.trans hopened'
    obtain ⟨m, hm, hclosing⟩ := Option.bind_eq_some_iff.mp hclosed
    rw [between_split hij hjk hm] at hbalanced'
    exact hbalanced'.not_closing hclosing hbalanced
  exact Nat.le_antisymm (Nat.le_of_not_lt (hnot h' h)) (Nat.le_of_not_lt (hnot h h'))

theorem partner?_eq_some_iff : partner? ms j = some i ↔ Paired ms i j := by
  constructor
  · intro h
    simpa using List.find?_some h
  · intro h
    cases hfind : partner? ms j with
    | none =>
      have hnone := List.find?_eq_none.mp hfind i (by simp [h.1])
      exact absurd h (by simpa using hnone)
    | some k =>
      have hk : Paired ms k j := by simpa using List.find?_some hfind
      rw [h.opening_unique hk]

theorem partner?_eq_none_iff : partner? ms j = none ↔ ∀ i, ¬Paired ms i j := by
  rw [Option.eq_none_iff_forall_ne_some]
  simp only [ne_eq, partner?_eq_some_iff]

theorem partner?_append (h : j < ms.length) : partner? (ms ++ ms') j = partner? ms j := by
  unfold partner?
  congr 1
  funext i
  simp only [paired_append h]

theorem mem_pairs_iff : (i, j) ∈ pairs ms ↔ Paired ms i j := by
  simp only [pairs, List.mem_filterMap, List.mem_range, Option.map_eq_some_iff,
    partner?_eq_some_iff, Prod.mk.injEq]
  constructor
  · rintro ⟨_, _, _, h, rfl, rfl⟩
    exact h
  · intro h
    exact ⟨j, h.lt_length, i, h, rfl, rfl⟩

theorem pairs_concat :
    pairs (ms ++ [m]) =
      pairs ms ++ ((partner? (ms ++ [m]) ms.length).map fun i => (i, ms.length)).toList := by
  have hold : ∀ j ∈ List.range ms.length,
      (partner? (ms ++ [m]) j).map (fun i => (i, j)) = (partner? ms j).map fun i => (i, j) := by
    intro j hj
    rw [partner?_append (List.mem_range.mp hj)]
  rw [pairs, pairs, List.length_append, List.length_singleton, List.range_succ,
    List.filterMap_append, List.filterMap_congr hold]
  rfl

/-- The pairs are in the order of their closings. -/
theorem pairwise_pairs (ms : List Message) : (pairs ms).Pairwise fun p q => p.2 < q.2 := by
  refine List.pairwise_filterMap.mpr (List.pairwise_lt_range.imp ?_)
  intro j k hjk p hp q hq
  obtain ⟨_, _, rfl⟩ := Option.map_eq_some_iff.mp hp
  obtain ⟨_, _, rfl⟩ := Option.map_eq_some_iff.mp hq
  exact hjk

end Score

end Orchestrion

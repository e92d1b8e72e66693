import Orchestrion.Proofs.Score.Bracket
import Mathlib.Data.List.Induction

set_option autoImplicit false

/-!
# Notes are pairs of brackets

The openings that wait are kept as one stack of indices, in which the openings of
each key are nested.  Along the messages of a score the notes that have begun are
the openings on the stack, and the notes that have ended are the pairs so far.
-/

namespace Orchestrion.Score

variable {ms ms' : List Message} {m : Message} {key : NoteKey} {left : List Nat} {i j n : Nat}

/-! ## Taking one of a list away -/

section

variable {β : Type} {p q : β → Bool} {l : List β} {a b : β}

theorem filter_eraseP_self : (l.eraseP p).filter p = (l.filter p).tail := by
  have hfilter := List.eraseP_filter (p := p) (f := p) (l := l)
  simp only [Bool.and_self] at hfilter
  rw [← hfilter]
  cases h : l.filter p with
  | nil => rfl
  | cons a rest =>
    have ha : p a = true := List.of_mem_filter (h ▸ List.mem_cons_self)
    rw [List.eraseP_cons_of_pos ha, List.tail_cons]

theorem filter_eraseP_of_disjoint (h : ∀ a, p a = true → ¬q a = true) :
    (l.eraseP p).filter q = l.filter q := by
  rcases List.exists_or_eq_self_of_eraseP p l with heq | ⟨a, front, back, _, ha, hl, heq⟩
  · rw [heq]
  · rw [heq, hl, List.filter_append, List.filter_append, List.filter_cons_of_neg (h a ha)]

theorem mem_eraseP_or_eq (hfind : l.find? p = some b) (h : a ∈ l) : a ∈ l.eraseP p ∨ a = b := by
  obtain ⟨hb, front, back, rfl, hfront⟩ := List.find?_eq_some_iff_append.mp hfind
  rw [List.eraseP_append_right _ (by simpa using hfront), List.eraseP_cons_of_pos hb]
  simp only [List.mem_append, List.mem_cons] at h ⊢
  tauto

end

/-! ## Openings that wait -/

/-- Openings of a key before an index, the latest first: the messages between each
of them and the next are balanced. -/
inductive Nested (ms : List Message) (key : NoteKey) : Nat → List Nat → Prop
  | nil (n : Nat) : Nested ms key n []
  | cons {n i : Nat} {left : List Nat} (hlt : i < n) (hopened : openedAt ms i = some key)
      (hbalanced : Balanced key (between ms i n)) (hrest : Nested ms key i left) :
      Nested ms key n (i :: left)

theorem Nested.append (h : Nested ms key n left) (hn : n ≤ ms.length) :
    Nested (ms ++ ms') key n left := by
  induction h with
  | nil n => exact .nil n
  | cons hlt hopened hbalanced _ ih =>
    refine .cons hlt ?_ ?_ (ih (by omega))
    · rw [openedAt_append (by omega)]
      exact hopened
    · rw [between_append hn]
      exact hbalanced

theorem between_concat (hi : i < ms.length) :
    between (ms ++ [m]) i (ms.length + 1) = between ms i ms.length ++ [m] := by
  rw [between_succ (m := m) hi (by simp), between_append (Nat.le_refl _)]

theorem Nested.concat (h : Nested ms key ms.length left) (hopened : m.opened? ≠ some key)
    (hclosed : m.closed? ≠ some key) : Nested (ms ++ [m]) key (ms.length + 1) left := by
  cases h with
  | nil => exact .nil _
  | cons hlt hopenedAt hbalanced hrest =>
    refine .cons (by omega) ?_ ?_ (hrest.append (by omega))
    · rw [openedAt_append hlt]
      exact hopenedAt
    · rw [between_concat hlt]
      exact hbalanced.concat hopened hclosed

theorem Nested.opening (h : Nested ms key ms.length left) (hopened : m.opened? = some key) :
    Nested (ms ++ [m]) key (ms.length + 1) (ms.length :: left) := by
  refine .cons (Nat.lt_succ_self _) ?_ ?_ (h.append (Nat.le_refl _))
  · rw [openedAt_length, hopened]
  · rw [between_self_succ]
    exact .nil

/-- A closing meets the latest opening that waits, and leaves the others nested. -/
theorem Nested.closing (h : Nested ms key ms.length (i :: left)) (hclosed : m.closed? = some key) :
    Paired (ms ++ [m]) i ms.length ∧ Nested (ms ++ [m]) key (ms.length + 1) left := by
  cases h with
  | cons hlt hopened hbalanced hrest =>
    constructor
    · refine ⟨hlt, key, ?_, ?_, ?_⟩
      · rw [openedAt_append hlt]
        exact hopened
      · rw [closedAt_length, hclosed]
      · rw [between_append (Nat.le_refl _)]
        exact hbalanced
    · cases hrest with
      | nil => exact .nil _
      | cons hlt' hopened' hbalanced' hrest' =>
        obtain ⟨opening, hget, hopening⟩ := Option.bind_eq_some_iff.mp hopened
        refine .cons (by omega) ?_ ?_ (hrest'.append (by omega))
        · rw [openedAt_append (by omega)]
          exact hopened'
        · rw [between_concat (by omega), between_split hlt' hlt hget]
          exact hbalanced'.enclose hopening hbalanced hclosed

/-- Whether the message at an index begins a note of a key. -/
def opensAt (ms : List Message) (key : NoteKey) (i : Nat) : Bool := openedAt ms i = some key

/-- The openings that wait after some messages: those of each key are nested, and
those that do not wait are paired. -/
structure Waiting (ms : List Message) (left : List Nat) : Prop where
  opened : ∀ i ∈ left, i < ms.length
  nested : ∀ key, Nested ms key ms.length (left.filter (opensAt ms key))
  paired : ∀ i key, openedAt ms i = some key → i ∈ left ∨ ∃ j, Paired ms i j

namespace Waiting

theorem nil : Waiting [] [] where
  opened := by
    intro i hi
    cases hi
  nested := fun key => .nil _
  paired := by
    intro i key h
    cases h

theorem filter_append (h : Waiting ms left) (key : NoteKey) :
    left.filter (opensAt (ms ++ ms') key) = left.filter (opensAt ms key) := by
  refine List.filter_congr fun i hi => ?_
  rw [opensAt, opensAt, openedAt_append (h.opened i hi)]

/-- What is paired already stays so. -/
theorem paired_append (h : Waiting ms left) (hi : i < ms.length)
    (hopened : openedAt (ms ++ ms') i = some key) :
    i ∈ left ∨ ∃ j, Paired (ms ++ ms') i j := by
  rw [openedAt_append hi] at hopened
  rcases h.paired i key hopened with hmem | ⟨j, hj⟩
  · exact .inl hmem
  · exact .inr ⟨j, (Score.paired_append hj.lt_length).mpr hj⟩

theorem lt_or_eq (h : openedAt (ms ++ [m]) i = some key) : i < ms.length ∨ i = ms.length := by
  have hlt := lt_of_openedAt h
  rw [List.length_append, List.length_singleton] at hlt
  omega

/-- An opening joins the openings that wait. -/
theorem opening (h : Waiting ms left) (hopened : m.opened? = some key) :
    Waiting (ms ++ [m]) (ms.length :: left) where
  opened := by
    intro i hi
    rw [List.length_append, List.length_singleton]
    rcases List.mem_cons.mp hi with rfl | hi
    · omega
    · have := h.opened i hi
      omega
  nested := by
    intro key'
    rw [List.length_append, List.length_singleton, List.filter_cons, h.filter_append]
    by_cases hkey : key = key'
    · subst hkey
      rw [if_pos (by rw [opensAt, openedAt_length, hopened, decide_eq_true rfl])]
      exact (h.nested key).opening hopened
    · have hne : m.opened? ≠ some key' := by
        rw [hopened]
        exact fun heq => hkey (Option.some.inj heq)
      rw [if_neg (by rw [opensAt, openedAt_length, decide_eq_false hne]; exact Bool.false_ne_true)]
      refine (h.nested key').concat hne ?_
      rw [Message.closed?_eq_none_of_opened? hopened]
      exact nofun
  paired := by
    intro i key' hi
    rcases lt_or_eq hi with hlt | rfl
    · exact (h.paired_append hlt hi).imp_left (List.mem_cons_of_mem _)
    · exact .inl List.mem_cons_self

/-- A message that neither begins nor ends a note, and a closing that no opening
waits for, leave the openings as they are. -/
theorem skip (h : Waiting ms left) (hopened : m.opened? = none)
    (hclosed : ∀ key, m.closed? = some key → left.find? (opensAt ms key) = none) :
    Waiting (ms ++ [m]) left where
  opened := by
    intro i hi
    have := h.opened i hi
    rw [List.length_append, List.length_singleton]
    omega
  nested := by
    intro key
    have hne : m.opened? ≠ some key := by
      rw [hopened]
      exact nofun
    rw [List.length_append, List.length_singleton, h.filter_append]
    by_cases hkey : m.closed? = some key
    · have hnil : left.filter (opensAt ms key) = [] := by
        rw [← List.head?_eq_none_iff, List.head?_filter]
        exact hclosed key hkey
      rw [hnil]
      exact .nil _
    · exact (h.nested key).concat hne hkey
  paired := by
    intro i key hi
    rcases lt_or_eq hi with hlt | rfl
    · exact h.paired_append hlt hi
    · rw [openedAt_length, hopened] at hi
      cases hi

/-- The latest opening of a key that waits, and what is below it. -/
theorem nested_of_find? (h : Waiting ms left) (hfind : left.find? (opensAt ms key) = some i) :
    Nested ms key ms.length (i :: (left.filter (opensAt ms key)).tail) := by
  have hhead : (left.filter (opensAt ms key)).head? = some i := by
    rw [List.head?_filter]
    exact hfind
  obtain ⟨rest, hrest⟩ := List.head?_eq_some_iff.mp hhead
  have hnested := h.nested key
  rw [hrest] at hnested ⊢
  exact hnested

/-- A closing is paired with the latest opening of its key that waits. -/
theorem paired_of_find? (h : Waiting ms left) (hclosed : m.closed? = some key)
    (hfind : left.find? (opensAt ms key) = some i) : Paired (ms ++ [m]) i ms.length :=
  ((h.nested_of_find? hfind).closing hclosed).1

/-- A closing that no opening waits for has no partner. -/
theorem not_paired_of_find? (h : Waiting ms left) (hclosed : m.closed? = some key)
    (hfind : left.find? (opensAt ms key) = none) (i : Nat) : ¬Paired (ms ++ [m]) i ms.length := by
  intro hpaired
  have ⟨hlt, key', hopened, hclosed', _⟩ := hpaired
  rw [closedAt_length, hclosed] at hclosed'
  cases hclosed'
  rw [Option.mem_def, openedAt_append hlt] at hopened
  rcases h.paired i key hopened with hmem | ⟨j, hj⟩
  · exact List.find?_eq_none.mp hfind i hmem (decide_eq_true hopened)
  · have heq := hpaired.closing_unique ((Score.paired_append hj.lt_length).mpr hj)
    have := hj.lt_length
    omega

/-- A closing takes away the latest opening of its key that waits. -/
theorem closing (h : Waiting ms left) (hclosed : m.closed? = some key)
    (hfind : left.find? (opensAt ms key) = some i) :
    Waiting (ms ++ [m]) (left.eraseP (opensAt ms key)) where
  opened := by
    intro k hk
    have := h.opened k (List.mem_of_mem_eraseP hk)
    rw [List.length_append, List.length_singleton]
    omega
  nested := by
    intro key'
    have hold : (left.eraseP (opensAt ms key)).filter (opensAt (ms ++ [m]) key') =
        (left.eraseP (opensAt ms key)).filter (opensAt ms key') := by
      refine List.filter_congr fun k hk => ?_
      rw [opensAt, opensAt, openedAt_append (h.opened k (List.mem_of_mem_eraseP hk))]
    rw [List.length_append, List.length_singleton, hold]
    by_cases hkey : key = key'
    · subst hkey
      rw [filter_eraseP_self]
      exact ((h.nested_of_find? hfind).closing hclosed).2
    · rw [filter_eraseP_of_disjoint]
      · refine (h.nested key').concat ?_ ?_
        · intro hopened
          rw [Message.closed?_eq_none_of_opened? hopened] at hclosed
          cases hclosed
        · rw [hclosed]
          exact fun heq => hkey (Option.some.inj heq)
      · intro k hk hk'
        exact hkey (Option.some.inj ((of_decide_eq_true hk).symm.trans (of_decide_eq_true hk')))
  paired := by
    intro k key' hk
    rcases lt_or_eq hk with hlt | rfl
    · rcases h.paired_append hlt hk with hmem | hpaired
      · rcases mem_eraseP_or_eq hfind hmem with hleft | rfl
        · exact .inl hleft
        · exact .inr ⟨ms.length, h.paired_of_find? hclosed hfind⟩
      · exact .inr hpaired
    · rw [openedAt_length] at hk
      rw [Message.closed?_eq_none_of_opened? hk] at hclosed
      cases hclosed

end Waiting

/-- After any messages some openings wait. -/
theorem exists_waiting (ms : List Message) : ∃ left, Waiting ms left := by
  induction ms using List.reverseRecOn with
  | nil => exact ⟨[], .nil⟩
  | append_singleton ms m ih =>
    obtain ⟨left, h⟩ := ih
    cases hopened : m.opened? with
    | some key => exact ⟨_, h.opening hopened⟩
    | none =>
      cases hclosed : m.closed? with
      | none =>
        refine ⟨left, h.skip hopened ?_⟩
        rw [hclosed]
        exact nofun
      | some key =>
        cases hfind : left.find? (opensAt ms key) with
        | some i => exact ⟨_, h.closing hclosed hfind⟩
        | none =>
          refine ⟨left, h.skip hopened ?_⟩
          intro key' hkey'
          cases hclosed.symm.trans hkey'
          exact hfind

/-- A closing has a partner just when an opening of its key is left for it. -/
theorem exists_paired_iff (hclosed : closedAt ms j = some key) :
    (∃ i, Paired ms i j) ↔
      ∃ i < j, openedAt ms i = some key ∧ ∀ j' < j, ¬Paired ms i j' := by
  constructor
  · rintro ⟨i, hpaired⟩
    have ⟨hlt, key', hopened, hclosed', _⟩ := hpaired
    cases hclosed.symm.trans hclosed'
    refine ⟨i, hlt, hopened, fun j' hj' hpaired' => ?_⟩
    have := hpaired.closing_unique hpaired'
    omega
  · rintro ⟨i, hlt, hopened, hfree⟩
    obtain ⟨m, hm, hclosing⟩ := Option.bind_eq_some_iff.mp hclosed
    obtain ⟨front, rest, rfl, rfl⟩ : ∃ front rest, ms = front ++ m :: rest ∧ front.length = j := by
      obtain ⟨hj, rfl⟩ := List.getElem?_eq_some_iff.mp hm
      refine ⟨ms.take j, ms.drop (j + 1), ?_, ?_⟩
      · rw [List.getElem_cons_drop, List.take_append_drop]
      · rw [List.length_take]
        omega
    obtain ⟨left, hleft⟩ := exists_waiting front
    rw [openedAt_append hlt] at hopened
    have hwaits : i ∈ left := by
      refine (hleft.paired i key hopened).resolve_right ?_
      rintro ⟨j', hj'⟩
      exact hfree j' hj'.lt_length ((paired_append hj'.lt_length).mpr hj')
    cases hfind : left.find? (opensAt front key) with
    | none => exact absurd (decide_eq_true hopened) (List.find?_eq_none.mp hfind i hwaits)
    | some k =>
      refine ⟨k, ?_⟩
      have hpaired := hleft.paired_of_find? hclosing hfind
      rw [show front ++ m :: rest = (front ++ [m]) ++ rest by simp]
      exact (paired_append (by simp)).mpr hpaired

end Orchestrion.Score

import Orchestrion.Formula.Room
import Orchestrion.Proofs.Formula.Depth
import Orchestrion.Proofs.Formula.Viability

set_option autoImplicit false

/-!
# What comes of a formula in a limited room

The calls that are open are counted step by step, and the count is always that of the frames
(`calls_of_step`).  So there is no room for some tokens if a beginning of them opens more calls
than there is room for, and such a beginning is viable.  Where there is room, tokens are read as
if there always were.  How many calls are open is told, up to a factor, by how deep expressions
are nested when the formula is read by calls (`Descent.overflows`).

Some tokens find no room, however much there is: brackets may be nested as deep as one likes.
-/

namespace Orchestrion.Formula

variable {room : Nat} {σ σ' : State} {t : Token} {ts : List Token}

/-! ## Counting calls -/

theorem calls_of_takeOperand {e : Expr} {stack : List Frame}
    (h : takeOperand e stack t = .next σ) : σ.calls = callsOf stack + σ.begun := by
  cases t with
  | operator op =>
    cases h
    rw [State.calls, callsOf, State.begun, Nat.add_comm]
  | word _ | number _ _ | openBracket | closeBracket | unknown _ => cases h

theorem calls_of_endOperand {e : Expr} {stack : List Frame}
    (h : endOperand 0 t e stack = .next σ) :
    endedBy t stack + σ.calls = callsOf stack + σ.begun := by
  induction stack generalizing e with
  | nil =>
    unfold endOperand at h
    split at h
    · rw [endedBy, Nat.zero_add, calls_of_takeOperand h]
    · cases h
  | cons frame stack ih =>
    rw [endedBy]
    by_cases hlt : threshold 0 (frame :: stack) < t.power
    · rw [endOperand_of_threshold_lt hlt] at h
      have hkept : frame.power < t.power := hlt
      rw [if_pos hkept, Nat.zero_add, calls_of_takeOperand h]
    · have hended : ¬frame.power < t.power := hlt
      rw [if_neg hended, callsOf]
      by_cases hg : frame = .group
      · subst hg
        simp only [endOperand, if_neg hended] at h
        split at h
        · cases h
          rfl
        · cases h
      · rw [endOperand_close hg (Nat.not_lt.mp hlt)] at h
        rw [if_neg hg, Nat.add_assoc, ih h, Nat.add_assoc]

theorem calls_of_startOperand {stack : List Frame} (h : startOperand stack t = .next σ) :
    σ.calls = callsOf stack + σ.begun := by
  have hpushed (frame : Frame) :
      (State.before (frame :: stack)).calls = callsOf stack + frame.calls := by
    rw [State.calls, callsOf, Nat.add_comm]
  cases t with
  | word w =>
    simp only [startOperand] at h
    split at h
    · cases h
      exact hpushed _
    · cases h
      rfl
  | number _ _ =>
    cases h
    rfl
  | operator op =>
    cases op with
    | add | sub =>
      cases h
      exact hpushed _
    | mul | div | mod => cases h
  | openBracket =>
    cases h
    exact hpushed _
  | closeBracket | unknown _ => cases h

/-- No more calls end than are open. -/
theorem endedBy_le (t : Token) (stack : List Frame) : endedBy t stack ≤ callsOf stack := by
  induction stack with
  | nil => exact Nat.zero_le _
  | cons frame stack ih =>
    rw [endedBy, callsOf]
    split
    · exact Nat.zero_le _
    · apply Nat.add_le_add_left
      split
      · exact Nat.zero_le _
      · exact ih

/-- A token ends some calls and begins others; what is open then is what its frames stand
for. -/
theorem calls_of_step (h : step 0 σ t = .next σ') : σ.calls - σ.ended t + σ'.begun = σ'.calls := by
  cases σ with
  | before stack => exact (calls_of_startOperand h).symm
  | after e stack =>
    have hcalls := calls_of_endOperand h
    have hended := endedBy_le t stack
    change callsOf stack - endedBy t stack + σ'.begun = σ'.calls
    omega

/-- A frame is there for two calls at least, and for three at most. -/
theorem Frame.calls_bounds (frame : Frame) : 2 ≤ frame.calls ∧ frame.calls ≤ 3 := by
  unfold calls
  split <;> omega

theorem callsOf_bounds (stack : List Frame) :
    2 * stack.length ≤ callsOf stack ∧ callsOf stack ≤ 3 * stack.length := by
  induction stack with
  | nil => exact ⟨Nat.le_refl _, Nat.le_refl _⟩
  | cons frame stack ih =>
    have hframe := frame.calls_bounds
    rw [callsOf, List.length_cons]
    omega

theorem calls_bounds (σ : State) : 2 * σ.depth ≤ σ.calls ∧ σ.calls ≤ 3 * σ.depth := by
  cases σ with
  | before stack | after _ stack => exact callsOf_bounds stack

/-! ## Room -/

/-- Whether the tokens open more calls on the way than there is room for. -/
def Overflows (room : Nat) (ts : List Token) : Prop :=
  ∃ σ, Passes (.before []) ts σ ∧ room < σ.calls

/-- The beginning that there is no room for is viable, so nothing is wrong with it. -/
theorem Overflows.exists_viable (h : Overflows room ts) :
    ∃ front, front <+: ts ∧ Viable front ∧ Overflows room front := by
  obtain ⟨σ, ⟨front, hfront, hreach⟩, hcalls⟩ := h
  have hread : Reads σ front := by simpa using Reads.start.reaches hreach
  exact ⟨front, hfront, hread.viable, σ, ⟨front, List.prefix_rfl, hreach⟩, hcalls⟩

theorem Overflows.mono {us : List Token} (h : Overflows room ts) (hts : ts <+: us) :
    Overflows room us := by
  obtain ⟨σ, ⟨front, hfront, hreach⟩, hcalls⟩ := h
  exact ⟨σ, ⟨front, hfront.trans hts, hreach⟩, hcalls⟩

/-- Tokens behind some that are not viable make no difference to the room. -/
theorem Overflows.of_append {rest : List Token} (h : Overflows room (ts ++ rest))
    (hnot : ¬Viable ts) : Overflows room ts := by
  obtain ⟨front, hfront, hviable, hoverflows⟩ := h.exists_viable
  rcases List.prefix_or_prefix_of_prefix hfront (List.prefix_append ts rest) with hle | hge
  · exact hoverflows.mono hle
  · obtain ⟨more, rfl⟩ := hge
    exact absurd hviable.of_append hnot

/-- Tokens whose expressions are nested deep enough find no room, and only those. -/
theorem Descent.overflows {taken : List Nat} {depth : Nat} {r : Found}
    (h : Descent ts (.expression 0) 0 taken depth r) :
    (room < 2 * depth → Overflows room ts) ∧ (Overflows room ts → room < 3 * depth) := by
  obtain ⟨hall, σ, hpasses, hdepth⟩ := peak_isGreatest (.before []) ts
  rw [h.peak_whole] at hall hdepth
  constructor
  · intro hroom
    have hcalls := (calls_bounds σ).1
    exact ⟨σ, hpasses, by omega⟩
  · rintro ⟨σ, hpasses, hroom⟩
    have hcalls := (calls_bounds σ).2
    have hle := hall σ hpasses
    omega

/-! ## Runs -/

/-- From a state on, the reader runs out of room at the first state that opens more calls than
there is room for; if there is none, it reads on as if there always were room. -/
theorem runWithin_eq (room : Nat) (σ : State) (ts : List Token) :
    ((∃ σ', Passes σ ts σ' ∧ room < σ'.calls) ∧
      runWithin room σ.calls σ ts = .error .noRoom) ∨
    ((∀ σ', Passes σ ts σ' → σ'.calls ≤ room) ∧
      runWithin room σ.calls σ ts = (run 0 σ ts).mapError .fault) := by
  induction ts generalizing σ with
  | nil =>
    unfold runWithin
    by_cases hroom : room < σ.calls
    · exact .inl ⟨⟨σ, passes_self σ [], hroom⟩, if_pos hroom⟩
    · refine .inr ⟨?_, if_neg hroom⟩
      intro σ' h
      rw [passes_nil_iff.mp h]
      exact Nat.not_lt.mp hroom
  | cons t ts ih =>
    unfold runWithin
    by_cases hroom : room < σ.calls
    · exact .inl ⟨⟨σ, passes_self σ _, hroom⟩, if_pos hroom⟩
    have hwithin : σ.calls ≤ room := Nat.not_lt.mp hroom
    simp only [if_neg hroom]
    cases hstep : step 0 σ t with
    | next σ₁ =>
      simp only [passes_iff_of_step hstep]
      rw [calls_of_step hstep, run_of_step hstep]
      obtain ⟨⟨σ', hpasses, hcalls⟩, hrun⟩ | ⟨hlater, hrun⟩ := ih σ₁
      · exact .inl ⟨⟨σ', .inr hpasses, hcalls⟩, hrun⟩
      · refine .inr ⟨?_, hrun⟩
        rintro σ' (rfl | h)
        · exact hwithin
        · exact hlater σ' h
    | done e | fail fault =>
      have hstop : ∀ σ₁, step 0 σ t ≠ .next σ₁ := by
        rw [hstep]
        rintro σ₁ ⟨⟩
      refine .inr ⟨?_, by rw [run, hstep]; rfl⟩
      intro σ' h
      rwa [(passes_iff_of_stop hstop).mp h]

/-- There is no room for tokens that open too many calls, and all others are read as if there
always were room. -/
theorem parseTokensWithin_eq (room : Nat) (ts : List Token) :
    (Overflows room ts → parseTokensWithin room ts = .error .noRoom) ∧
    (¬Overflows room ts → parseTokensWithin room ts = (parseTokens ts).mapError .fault) := by
  have hcalls : (State.before []).calls = 0 := rfl
  have hrun := runWithin_eq room (.before []) ts
  rw [hcalls] at hrun
  unfold parseTokensWithin
  obtain ⟨hoverflows, hrun⟩ | ⟨hwithin, hrun⟩ := hrun
  · rw [hrun]
    exact ⟨fun _ => rfl, fun h => absurd hoverflows h⟩
  · rw [hrun]
    constructor
    · rintro ⟨σ, hpasses, hlt⟩
      exact absurd (hwithin σ hpasses) (Nat.not_le.mpr hlt)
    · intro _
      unfold parseTokens expression
      obtain fault | ⟨e, _ | ⟨t, rest⟩⟩ := run 0 (.before []) ts <;> rfl

theorem parseTokensWithin_eq_fault_iff {fault : Fault} (h : ¬Overflows room ts) :
    parseTokensWithin room ts = .error (.fault fault) ↔ parseTokens ts = .error fault := by
  rw [(parseTokensWithin_eq room ts).2 h]
  cases parseTokens ts <;> simp [Except.mapError]

theorem parseTokensWithin_eq_noRoom_iff :
    parseTokensWithin room ts = .error .noRoom ↔ Overflows room ts := by
  refine ⟨fun h => ?_, (parseTokensWithin_eq room ts).1⟩
  by_contra hnot
  rw [(parseTokensWithin_eq room ts).2 hnot] at h
  cases hparse : parseTokens ts <;> simp [hparse, Except.mapError] at h

/-! ## Faults -/

/-- **What becomes of tokens, in any room.**

* There is no room for them exactly if a beginning of them opens too many calls, and then nothing
  is wrong with that beginning.
* That depends on how deep expressions are nested in one another.  When they are read by calls,
  there is room if it is enough for three calls for each that is open at once, and none if it is
  not enough for two; and no more are open than there are tokens.
* Otherwise they are read as if there always were room.
* The first token that cannot be continued decides every other fault.  When the tokens are
  viable, something is missing.  When they are not, there is a first token behind which nothing
  can be completed; it alone decides the fault, which is that something is missing for an
  opening bracket, directly behind an operand, and that the token is unexpected for every other
  one. -/
theorem fault_of_parseTokensWithin (room : Nat) (ts : List Token) :
    (parseTokensWithin room ts = .error .noRoom ↔ Overflows room ts) ∧
    (Overflows room ts → ∃ front, front <+: ts ∧ Viable front ∧
      ∀ rest : List Token, parseTokensWithin room (front ++ rest) = .error .noRoom) ∧
    (∃ taken depth r, Descent ts (.expression 0) 0 taken depth r ∧ depth ≤ ts.length ∧
      (room < 2 * depth → Overflows room ts) ∧ (Overflows room ts → room < 3 * depth)) ∧
    (¬Overflows room ts → parseTokensWithin room ts = (parseTokens ts).mapError .fault) ∧
    ∀ fault, parseTokensWithin room ts = .error (.fault fault) →
      (Viable ts → fault = .incomplete) ∧
      (¬Viable ts → ∃ i : Fin ts.length,
        (∀ j ≤ i.val, Viable (ts.take j)) ∧
        ¬Viable (ts.take (i + 1)) ∧
        fault = (if ts.get i = .openBracket then .incomplete else .unexpected) ∧
        (ts.get i = .openBracket →
          ∃ init t, ts.take i = init ++ [t] ∧ t.endsOperand = true) ∧
        ∀ rest : List Token,
          parseTokensWithin room (ts.take (i + 1) ++ rest) = .error (.fault fault)) := by
  refine ⟨parseTokensWithin_eq_noRoom_iff, ?_, ?_, (parseTokensWithin_eq room ts).2, ?_⟩
  · intro h
    obtain ⟨front, hfront, hviable, hoverflows⟩ := h.exists_viable
    refine ⟨front, hfront, hviable, fun rest => ?_⟩
    exact parseTokensWithin_eq_noRoom_iff.mpr (hoverflows.mono (List.prefix_append front rest))
  · obtain ⟨taken, depth, r, hdescent⟩ := exists_descent ts 0 0
    exact ⟨taken, depth, r, hdescent, hdescent.depth_le_length, hdescent.overflows⟩
  · intro fault h
    have hroom : ¬Overflows room ts := fun hoverflows => by
      cases h.symm.trans (parseTokensWithin_eq_noRoom_iff.mpr hoverflows)
    have hlaw := fault_of_parseTokens_eq_error ((parseTokensWithin_eq_fault_iff hroom).mp h)
    refine ⟨hlaw.1, fun hviable => ?_⟩
    obtain ⟨i, hbefore, hstops, hfault, hlast, hrest⟩ := hlaw.2 hviable
    refine ⟨i, hbefore, hstops, hfault, hlast, fun rest => ?_⟩
    -- a beginning that there is no room for is viable, so it would end before that token
    have hlater : ¬Overflows room (ts.take (i + 1) ++ rest) := fun hoverflows =>
      hroom ((hoverflows.of_append hstops).mono (List.take_prefix _ _))
    exact (parseTokensWithin_eq_fault_iff hlater).mpr (hrest rest)

/-- Two operands in brackets: what is refused is not a formula that only has to be completed. -/
theorem not_viable_two_operands :
    parseTokensWithin 1000 [.openBracket, .word "x", .word "y", .closeBracket] =
        .error (.fault .unexpected) ∧
      ¬Viable [.openBracket, .word "x", .word "y", .closeBracket] ∧
      ¬Overflows 1000 [.openBracket, .word "x", .word "y", .closeBracket] := by
  have h : parseTokensWithin 1000 [.openBracket, .word "x", .word "y", .closeBracket] =
      .error (.fault .unexpected) := by
    decide +kernel
  obtain ⟨hnoRoom, -, -, -, hfault⟩ := fault_of_parseTokensWithin 1000
    [.openBracket, .word "x", .word "y", .closeBracket]
  refine ⟨h, fun hviable => ?_, fun hoverflows => ?_⟩
  · cases (hfault _ h).1 hviable
  · cases h.symm.trans (hnoRoom.mpr hoverflows)

/-! ## Nested brackets -/

theorem reaches_brackets (depth : Nat) (stack : List Frame) :
    Reaches (.before stack) (List.replicate depth .openBracket)
      (.before (List.replicate depth .group ++ stack)) := by
  induction depth generalizing stack with
  | zero => exact .refl _
  | succ depth ih =>
    have hnext := ih (.group :: stack)
    rw [List.append_cons, ← List.replicate_succ'] at hnext
    exact .cons rfl hnext

theorem callsOf_brackets (depth : Nat) :
    callsOf (List.replicate depth .group) = 3 * depth := by
  induction depth with
  | zero => rfl
  | succ depth ih =>
    rw [List.replicate_succ, callsOf, ih, Frame.calls]
    omega

/-- Brackets that are only opened find room exactly if there is room for three calls for each of
them. -/
theorem overflows_brackets_iff (room depth : Nat) :
    Overflows room (List.replicate depth .openBracket) ↔ room < 3 * depth := by
  constructor
  · intro h
    obtain ⟨taken, depth', r, hdescent⟩ := exists_descent (List.replicate depth .openBracket) 0 0
    have hroom := hdescent.overflows.2 h
    have hdepth := hdescent.depth_le_length
    rw [List.length_replicate] at hdepth
    omega
  · intro h
    refine ⟨_, ⟨_, List.prefix_rfl, reaches_brackets depth []⟩, ?_⟩
    rwa [List.append_nil, State.calls, callsOf_brackets]

/-- In a room for a thousand calls, the fault of four hundred brackets is not the one of tokens
that end early. -/
theorem noRoom_brackets :
    Viable (List.replicate 400 .openBracket) ∧
      parseTokensWithin 1000 (List.replicate 400 .openBracket) = .error .noRoom ∧
      ¬∃ fault, parseTokensWithin 1000 (List.replicate 400 .openBracket) =
        .error (.fault fault) := by
  have hreach := reaches_brackets 400 []
  have hread := Reads.start.reaches hreach
  rw [List.nil_append] at hread
  have hnoRoom : parseTokensWithin 1000 (List.replicate 400 .openBracket) = .error .noRoom :=
    parseTokensWithin_eq_noRoom_iff.mpr ((overflows_brackets_iff 1000 400).mpr (by decide))
  refine ⟨hread.viable, hnoRoom, ?_⟩
  rintro ⟨fault, h⟩
  cases h.symm.trans hnoRoom

end Orchestrion.Formula

import Orchestrion.Proofs.Formula.Grammar

set_option autoImplicit false

/-!
# The reader of formulas and their grammar

The reader keeps a stack of frames and knows nothing of levels.  It is compared
with the grammar in both directions.

* What the grammar derives is read (`run_of_derives`): in front of a part of
  some level, in a state whose innermost frame does not hold tighter than that
  level, the reader goes on as if the part were one operand.
* What has been read can be derived (`Reads`): at every moment the tokens so far
  are cut into one stretch for each frame and a last one for the operand, and
  each stretch waits for nothing but what follows.

`parse_eq_ok_iff_derives` puts both together.
-/

namespace Orchestrion.Formula

/-! ## Frames and levels -/

/-- How tightly a token must bind to take the operand away from the innermost
frame. -/
def threshold (limit : Nat) : List Frame → Nat
  | [] => limit
  | frame :: _ => frame.power

/-- The tree of a frame and its operand. -/
def Frame.close : Frame → Expr → Expr
  | .plus, e => e
  | .unary op, e => .unary op e
  | .binary lhs op, e => .binary op lhs e
  | .group, e => e

/-- The tokens that a frame needs behind its operand. -/
def Frame.closer : Frame → List Token
  | .group => [.closeBracket]
  | _ => []

/-- The level at which an operator of two operands stands. -/
def BinaryOp.level : BinaryOp → Level
  | .add | .sub => .sum
  | .mul | .div | .mod => .product

/-- The level of a frame together with its operand. -/
def Frame.level : Frame → Level
  | .binary _ op => op.level
  | _ => .operand

theorem BinaryOp.power_level (op : BinaryOp) :
    op.level.power = (Token.operator op).power := by
  cases op <;> rfl

/-- No token binds tighter than an operator in front of an operand. -/
theorem Token.power_le (t : Token) : t.power ≤ unaryPower := by
  unfold Token.power unaryPower
  split <;> decide

theorem Token.power_le_operand (t : Token) : t.power ≤ Level.operand.power := by
  have h := t.power_le
  simp only [Level.power]
  omega

/-- No frame holds its operand tighter than an operator in front of it does. -/
theorem Frame.power_le (frame : Frame) : frame.power ≤ unaryPower := by
  cases frame with
  | plus | unary _ => exact Nat.le_refl _
  | binary lhs op => exact Token.power_le _
  | group => exact Nat.zero_le _

/-- An operand may stand behind any frames. -/
theorem threshold_lt_operand (stack : List Frame) : threshold 0 stack < Level.operand.power := by
  cases stack with
  | nil => exact Nat.succ_pos _
  | cons frame stack => exact Nat.lt_succ_of_le frame.power_le

/-- An operator joins a part of its level with a part that its frame does not
let go of. -/
theorem Derives.binary {op : BinaryOp} {l : Level} {ls rs : List Token} {a b : Expr}
    (hl : Derives op.level ls a) (hr : Derives l rs b) (h : op.level.power < l.power) :
    Derives op.level (ls ++ .operator op :: rs) (.binary op a b) := by
  cases op with
  | add | sub =>
    refine .additive (by simp) hl (hr.loosen ?_)
    cases l <;> simp_all [Level.power, BinaryOp.level, unaryPower]
  | mul | div | mod =>
    refine .multiplicative (by simp) hl (hr.loosen ?_)
    cases l <;> simp_all [Level.power, BinaryOp.level, unaryPower]

/-! ## Steps of the reader -/

theorem function?_eq_some_iff {w : String} {op : UnaryOp} :
    function? w = some op ↔ (w, op) ∈ functionWords := by
  unfold function? functionWords
  split <;> simp_all [eq_comm]

theorem function?_eq_none_iff {w : String} :
    function? w = none ↔ w ∉ functionWords.map Prod.fst := by
  unfold function? functionWords
  split <;> simp_all

/-- A token that leads on is as good as not there, with the state it leads to. -/
theorem run_of_step {limit : Nat} {σ σ' : State} {t : Token} (h : step limit σ t = .next σ')
    (ts : List Token) : run limit σ (t :: ts) = run limit σ' ts := by
  rw [run, h]

/-- A token that binds tighter than the innermost frame takes the operand. -/
theorem endOperand_of_threshold_lt {limit : Nat} {t : Token} {e : Expr} {stack : List Frame}
    (h : threshold limit stack < t.power) :
    endOperand limit t e stack = takeOperand e stack t := by
  cases stack with
  | nil => exact if_pos h
  | cons frame stack => exact if_pos h

/-- A frame that holds at least as tight as the token is closed, unless it is a
bracket. -/
theorem endOperand_close {limit : Nat} {t : Token} {e : Expr} {frame : Frame}
    {stack : List Frame} (hg : frame ≠ .group) (h : t.power ≤ frame.power) :
    endOperand limit t e (frame :: stack) = endOperand limit t (frame.close e) stack := by
  cases frame with
  | plus | unary _ | binary _ _ => exact if_neg (Nat.not_lt.mpr h)
  | group => exact absurd rfl hg

theorem close_close {e : Expr} {frame : Frame} {stack : List Frame} (hg : frame ≠ .group) :
    close e (frame :: stack) = close (frame.close e) stack := by
  cases frame with
  | plus | unary _ | binary _ _ => rfl
  | group => exact absurd rfl hg

/-- In front of tokens that do not bind tighter than the innermost frame, the
reader goes on as if that frame were closed. -/
theorem run_close {limit : Nat} {e : Expr} {frame : Frame} {stack : List Frame}
    {rest : List Token} (hg : frame ≠ .group) (h : ∀ t ∈ rest.head?, t.power ≤ frame.power) :
    run limit (.after e (frame :: stack)) rest = run limit (.after (frame.close e) stack) rest := by
  cases rest with
  | nil => rw [run, run, close_close hg]
  | cons t rest =>
    have ht : t.power ≤ frame.power := h t rfl
    rw [run, run, step, step, endOperand_close hg ht]

/-- An operator that binds tighter than the innermost frame opens a frame of its
own. -/
theorem run_take {limit : Nat} {e : Expr} {op : BinaryOp} {stack : List Frame}
    (h : threshold limit stack < op.level.power) (rest : List Token) :
    run limit (.after e stack) (.operator op :: rest) =
      run limit (.before (.binary e op :: stack)) rest := by
  rw [op.power_level] at h
  have hstep : step limit (.after e stack) (.operator op) =
      .next (.before (.binary e op :: stack)) := endOperand_of_threshold_lt h
  exact run_of_step hstep rest

/-- A token in front of an operand opens a frame that holds it as tight as can be. -/
theorem Prefixes.exists_frame {p : Token} {f : Expr → Expr} (hp : Prefixes p f) :
    ∃ frame : Frame, frame ≠ .group ∧ frame.level = .operand ∧ frame.closer = [] ∧
      frame.power = unaryPower ∧ frame.close = f ∧
      ∀ limit stack, step limit (.before stack) p = .next (.before (frame :: stack)) := by
  cases hp with
  | plus => exact ⟨.plus, nofun, rfl, rfl, rfl, rfl, fun _ _ => rfl⟩
  | minus => exact ⟨.unary .negate, nofun, rfl, rfl, rfl, rfl, fun _ _ => rfl⟩
  | @function w op hw =>
    refine ⟨.unary op, nofun, rfl, rfl, rfl, rfl, fun limit stack => ?_⟩
    simp [step, startOperand, function?_eq_some_iff.mpr hw]

/-- A token in front of an operand opens a frame that is closed as soon as the
operand has ended. -/
theorem run_prefixed {limit : Nat} {p : Token} {f : Expr → Expr} (hp : Prefixes p f)
    {ts rest : List Token} {e : Expr} {stack : List Frame}
    (h : ∀ stack', threshold limit stack' < Level.operand.power →
      run limit (.before stack') (ts ++ rest) = run limit (.after e stack') rest) :
    run limit (.before stack) (p :: ts ++ rest) = run limit (.after (f e) stack) rest := by
  obtain ⟨frame, hg, -, -, hpower, hclose, hstep⟩ := hp.exists_frame
  rw [List.cons_append, run_of_step (hstep limit stack), h (frame :: stack), ← hclose]
  · exact run_close hg fun t _ => hpower ▸ t.power_le
  · rw [threshold, hpower]
    exact Nat.lt_succ_self unaryPower

/-! ## What is derived is read -/

/-- A part of a formula is read as one operand, between an innermost frame that
does not hold as tight as the part and a token that does not bind tighter. -/
theorem run_of_derives {limit : Nat} {l : Level} {ts : List Token} {e : Expr}
    (h : Derives l ts e) : ∀ (stack : List Frame) (rest : List Token),
      threshold limit stack < l.power → (∀ t ∈ rest.head?, t.power ≤ l.power) →
      run limit (.before stack) (ts ++ rest) = run limit (.after e stack) rest := by
  induction h with
  | ofProduct _ ih =>
    intro stack rest hstack hrest
    exact ih stack rest (Nat.lt_trans hstack (by decide))
      fun t ht => Nat.le_trans (hrest t ht) (by decide)
  | ofOperand _ ih =>
    intro stack rest hstack hrest
    exact ih stack rest (Nat.lt_trans hstack (by decide)) fun t _ => t.power_le_operand
  | @additive op ls rs a b hop _ _ ihl ihr =>
    intro stack rest hstack hrest
    have hlevel : op.level = .sum := by rcases hop with rfl | rfl <;> rfl
    have hpower : (Frame.binary a op).power = Level.sum.power := by
      rw [← hlevel, op.power_level]; rfl
    rw [List.append_assoc, List.cons_append, ihl stack _ hstack (by
        intro t ht
        cases ht
        rw [← hlevel, op.power_level]),
      run_take (by rw [hlevel]; exact hstack),
      ihr (.binary a op :: stack) rest (by rw [threshold, hpower]; decide)
        (fun t ht => Nat.le_trans (hrest t ht) (by decide))]
    exact run_close (by simp) (by rw [hpower]; exact hrest)
  | @multiplicative op ls rs a b hop _ _ ihl ihr =>
    intro stack rest hstack hrest
    have hlevel : op.level = .product := by rcases hop with rfl | rfl | rfl <;> rfl
    have hpower : (Frame.binary a op).power = Level.product.power := by
      rw [← hlevel, op.power_level]; rfl
    rw [List.append_assoc, List.cons_append, ihl stack _ hstack (by
        intro t ht
        cases ht
        rw [← hlevel, op.power_level]),
      run_take (by rw [hlevel]; exact hstack),
      ihr (.binary a op :: stack) rest (by rw [threshold, hpower]; decide)
        (fun t _ => t.power_le_operand)]
    exact run_close (by simp) (by rw [hpower]; exact hrest)
  | prefixed hp _ ih =>
    intro stack rest _ _
    exact run_prefixed hp fun stack' h => ih stack' rest h fun t _ => t.power_le_operand
  | number written value =>
    intro stack rest _ _
    exact run_of_step rfl rest
  | @name w hw =>
    intro stack rest _ _
    have hstep : step limit (.before stack) (.word w) = .next (.after (.name w) stack) := by
      simp [step, startOperand, function?_eq_none_iff.mpr hw]
    exact run_of_step hstep rest
  | @group ts e _ ih =>
    intro stack rest _ _
    have hopen : run limit (.before stack) (.openBracket :: (ts ++ .closeBracket :: rest)) =
        run limit (.before (.group :: stack)) (ts ++ .closeBracket :: rest) := run_of_step rfl _
    have hinner := ih (.group :: stack) (.closeBracket :: rest) (Nat.succ_pos _) (by
      intro t ht
      cases ht
      decide)
    have hclose : run limit (.after e (.group :: stack)) (.closeBracket :: rest) =
        run limit (.after e stack) rest := run_of_step rfl rest
    simpa using hopen.trans (hinner.trans hclose)

/-- A formula that the grammar derives is read, with the tree that is derived. -/
theorem parseTokens_of_derives {ts : List Token} {e : Expr} (h : Derives .sum ts e) :
    parseTokens ts = .ok e := by
  have hrun : run 0 (.before []) (ts ++ []) = run 0 (.after e []) [] :=
    run_of_derives h [] [] (by decide) (by simp)
  rw [List.append_nil] at hrun
  rw [parseTokens, expression, hrun]
  rfl

/-! ## What is read can be derived -/

/-- The tokens that have led to a stack of frames: a stretch for each frame,
which together with any operand that the frame does not let go of derives the
closed frame. -/
inductive Stacked : List Frame → List Token → Prop
  | nil : Stacked [] []
  | cons {frame : Frame} {stack : List Frame} {ts us : List Token} :
      Stacked stack ts → threshold 0 stack < frame.level.power →
      (∀ (l : Level) (vs : List Token) (e : Expr), frame.power < l.power → Derives l vs e →
        Derives frame.level (us ++ vs ++ frame.closer) (frame.close e)) →
      Stacked (frame :: stack) (ts ++ us)

/-- The tokens that have led to a state. -/
inductive Reads : State → List Token → Prop
  | before {stack : List Frame} {ts : List Token} : Stacked stack ts → Reads (.before stack) ts
  | after {stack : List Frame} {ts us : List Token} {e : Expr} :
      Stacked stack ts → Derives .operand us e → Reads (.after e stack) (ts ++ us)

/-- Nothing has been read at the start. -/
theorem Reads.start : Reads (.before []) [] := .before .nil

theorem Reads.of_startOperand {stack : List Frame} {ts : List Token} {t : Token} {σ : State}
    (hs : Stacked stack ts) (h : startOperand stack t = .next σ) : Reads σ (ts ++ [t]) := by
  have hframe {f : Expr → Expr} (hp : Prefixes t f) : Reads σ (ts ++ [t]) := by
    obtain ⟨frame, -, hlevel, hcloser, hpower, hclose, hstep⟩ := hp.exists_frame
    cases h.symm.trans (hstep 0 stack)
    refine .before (.cons hs ?_ fun l vs e hl hv => ?_)
    · rw [hlevel]
      exact threshold_lt_operand stack
    · rw [hpower] at hl
      have hoperand : Derives .operand vs e := hv.loosen hl
      rw [hlevel, hcloser, hclose, List.append_nil]
      exact .prefixed hp hoperand
  cases t with
  | word w =>
    simp only [startOperand] at h
    split at h
    · rename_i op hop
      exact hframe (.function (function?_eq_some_iff.mp hop))
    · rename_i hnone
      cases h
      exact .after hs (.name (function?_eq_none_iff.mp hnone))
  | number written value =>
    cases h
    exact .after hs (.number written value)
  | operator op =>
    cases op with
    | add => exact hframe .plus
    | sub => exact hframe .minus
    | mul => cases h
    | div => cases h
    | mod => cases h
  | openBracket =>
    cases h
    refine .before (.cons hs (threshold_lt_operand stack) fun l vs e _ hv => ?_)
    simpa [Frame.level, Frame.close, Frame.closer] using .group hv.toSum
  | closeBracket => cases h
  | unknown written => cases h

/-- An operator takes a part that holds together at least as tight as itself. -/
theorem Reads.of_takeOperand {stack : List Frame} {ts us : List Token} {l : Level} {e : Expr}
    {t : Token} {σ : State} (hs : Stacked stack ts) (hd : Derives l us e)
    (hstack : threshold 0 stack < t.power) (ht : t.power ≤ l.power)
    (h : takeOperand e stack t = .next σ) : Reads σ (ts ++ us ++ [t]) := by
  cases t with
  | operator op =>
    cases h
    rw [← op.power_level] at hstack ht
    rw [List.append_assoc]
    refine .before (.cons hs hstack fun l' vs e' hl' hv => ?_)
    rw [Frame.power, ← op.power_level] at hl'
    simpa [Frame.level, Frame.close, Frame.closer] using (hd.loosen ht).binary hv hl'
  | word w => cases h
  | number written value => cases h
  | openBracket => cases h
  | closeBracket => cases h
  | unknown written => cases h

theorem Reads.of_endOperand {stack : List Frame} {ts us : List Token} {l : Level} {e : Expr}
    {t : Token} {σ : State} (hs : Stacked stack ts) (hd : Derives l us e)
    (hstack : threshold 0 stack < l.power) (ht : t.power ≤ l.power)
    (h : endOperand 0 t e stack = .next σ) : Reads σ (ts ++ us ++ [t]) := by
  induction hs generalizing us l e with
  | nil =>
    by_cases hlt : threshold 0 [] < t.power
    · rw [endOperand_of_threshold_lt hlt] at h
      exact .of_takeOperand .nil hd hlt ht h
    · have hdone : endOperand 0 t e [] = .done e := if_neg hlt
      rw [hdone] at h
      cases h
  | @cons frame stack ts mid hs hframe hclose ih =>
    have hclosed := hclose l us e hstack hd
    by_cases hlt : threshold 0 (frame :: stack) < t.power
    · rw [endOperand_of_threshold_lt hlt] at h
      exact .of_takeOperand (.cons hs hframe hclose) hd hlt ht h
    have hle : t.power ≤ frame.power := Nat.not_lt.mp hlt
    cases frame with
    | plus | unary _ =>
      rw [endOperand_close (by simp) hle] at h
      simpa [Frame.closer] using ih hclosed hframe t.power_le_operand h
    | binary lhs op =>
      rw [endOperand_close (by simp) hle] at h
      have hpower : t.power ≤ op.level.power := by rw [op.power_level]; exact hle
      simpa [Frame.closer] using ih hclosed hframe hpower h
    | group =>
      cases t with
      | closeBracket =>
        cases h
        have hread := Reads.after hs hclosed
        simpa [Frame.closer, Frame.close] using hread
      | word w => cases h
      | number written value => cases h
      | operator op => cases op <;> cases hle
      | openBracket => cases hle
      | unknown written => cases h

/-- One token: what has been read stays derivable. -/
theorem Reads.of_step {σ σ' : State} {ts : List Token} {t : Token} (hr : Reads σ ts)
    (h : step 0 σ t = .next σ') : Reads σ' (ts ++ [t]) := by
  cases hr with
  | before hs => exact .of_startOperand hs h
  | after hs hd => exact .of_endOperand hs hd (threshold_lt_operand _) t.power_le_operand h

/-! ## Runs -/

/-- From one state to another by some tokens. -/
inductive Reaches : State → List Token → State → Prop
  | refl (σ : State) : Reaches σ [] σ
  | cons {σ σ' σ'' : State} {t : Token} {ts : List Token} :
      step 0 σ t = .next σ' → Reaches σ' ts σ'' → Reaches σ (t :: ts) σ''

/-- Tokens that have been taken step by step do not have to be looked at again. -/
theorem Reaches.run_append {σ σ' : State} {ts : List Token} (h : Reaches σ ts σ')
    (rest : List Token) : run 0 σ (ts ++ rest) = run 0 σ' rest := by
  induction h with
  | refl σ => rfl
  | cons hstep _ ih => exact (run_of_step hstep _).trans ih

theorem Reads.reaches {σ σ' : State} {ts us : List Token} (hr : Reads σ ts)
    (h : Reaches σ us σ') : Reads σ' (ts ++ us) := by
  induction h generalizing ts with
  | refl σ => simpa using hr
  | cons hstep _ ih => simpa using ih (hr.of_step hstep)

/-- The reader takes all tokens, or there is a first one that leads nowhere. -/
theorem reaches_or_stops (σ : State) (ts : List Token) :
    (∃ σ', Reaches σ ts σ') ∨
      ∃ pre t post σ', ts = pre ++ t :: post ∧ Reaches σ pre σ' ∧ ∀ σ'', step 0 σ' t ≠ .next σ'' := by
  induction ts generalizing σ with
  | nil => exact .inl ⟨σ, .refl σ⟩
  | cons t ts ih =>
    by_cases hstep : ∃ σ', step 0 σ t = .next σ'
    · obtain ⟨σ', hstep⟩ := hstep
      rcases ih σ' with ⟨σ'', h⟩ | ⟨pre, u, post, σ'', rfl, h, hstop⟩
      · exact .inl ⟨σ'', .cons hstep h⟩
      · exact .inr ⟨t :: pre, u, post, σ'', rfl, .cons hstep h, hstop⟩
    · exact .inr ⟨[], t, ts, σ, rfl, .refl σ, fun σ' h => hstep ⟨σ', h⟩⟩

/-! ## Tokens that lead nowhere -/

/-- What is wrong with a token that cannot stand where it is.  An opening bracket
can stand wherever an operand can, so what is wrong with it is that the operator
in front of it is missing. -/
def Token.fault : Token → Fault
  | .openBracket => .incomplete
  | _ => .unexpected

theorem startOperand_of_stops {stack : List Frame} {t : Token}
    (h : ∀ σ, startOperand stack t ≠ .next σ) : startOperand stack t = .fail t.fault := by
  cases t with
  | word w =>
    exfalso
    unfold startOperand at h
    cases hw : function? w with
    | some op => simp [hw] at h
    | none => simp [hw] at h
  | number written value => exact absurd rfl (h _)
  | operator op =>
    cases op with
    | add => exact absurd rfl (h _)
    | sub => exact absurd rfl (h _)
    | mul | div | mod => rfl
  | openBracket => exact absurd rfl (h _)
  | closeBracket => rfl
  | unknown written => rfl

theorem takeOperand_of_stops {e : Expr} {stack : List Frame} {t : Token} (ht : 0 < t.power)
    (h : ∀ σ, takeOperand e stack t ≠ .next σ) : takeOperand e stack t = .fail t.fault := by
  cases t with
  | operator op => exact absurd rfl (h _)
  | openBracket => rfl
  | word w => cases ht
  | number written value => cases ht
  | closeBracket => cases ht
  | unknown written => cases ht

/-- Behind an operand, a token that leads nowhere either is refused or ends the
expression; it does not end it when it binds. -/
theorem endOperand_of_stops {e : Expr} {stack : List Frame} {t : Token}
    (h : ∀ σ, endOperand 0 t e stack ≠ .next σ) :
    endOperand 0 t e stack = .fail t.fault ∨
      t.fault = .unexpected ∧ ∃ a, endOperand 0 t e stack = .done a := by
  induction stack generalizing e with
  | nil =>
    by_cases hlt : threshold 0 [] < t.power
    · rw [endOperand_of_threshold_lt hlt] at h ⊢
      exact .inl (takeOperand_of_stops hlt h)
    · refine .inr ⟨?_, e, if_neg hlt⟩
      cases t with
      | openBracket => exact absurd (by decide) hlt
      | word _ | number _ _ | operator _ | closeBracket | unknown _ => rfl
  | cons frame stack ih =>
    by_cases hlt : threshold 0 (frame :: stack) < t.power
    · rw [endOperand_of_threshold_lt hlt] at h ⊢
      exact .inl (takeOperand_of_stops (Nat.zero_lt_of_lt hlt) h)
    have hle : t.power ≤ frame.power := Nat.not_lt.mp hlt
    cases frame with
    | plus | unary _ | binary _ _ =>
      rw [endOperand_close (by simp) hle] at h ⊢
      exact ih h
    | group =>
      cases t with
      | closeBracket => exact absurd rfl (h _)
      | operator op => cases op <;> cases hle
      | openBracket => cases hle
      | word _ | number _ _ | unknown _ => exact .inl rfl

/-- A token that leads nowhere decides the fault, whatever stands behind it. -/
theorem parseTokens_of_stops {pre : List Token} {σ : State} {t : Token}
    (hreach : Reaches (.before []) pre σ) (h : ∀ σ', step 0 σ t ≠ .next σ') (post : List Token) :
    parseTokens (pre ++ t :: post) = .error t.fault := by
  rw [parseTokens, expression, hreach.run_append]
  cases σ with
  | before stack =>
    have hfail : step 0 (.before stack) t = .fail t.fault := startOperand_of_stops h
    rw [run, hfail]
  | after e stack =>
    rcases endOperand_of_stops h with hfail | ⟨hfault, a, hdone⟩
    · have hstep : step 0 (.after e stack) t = .fail t.fault := hfail
      rw [run, hstep]
    · have hstep : step 0 (.after e stack) t = .done a := hdone
      rw [run, hstep, hfault]

/-- When the tokens end, nothing but an open bracket is in the way of a tree. -/
theorem close_of_error {e : Expr} {stack : List Frame} {fault : Fault}
    (h : close e stack = .error fault) : fault = .incomplete := by
  induction stack generalizing e with
  | nil => cases h
  | cons frame stack ih =>
    cases frame with
    | plus | unary _ | binary _ _ => exact ih h
    | group => cases h; rfl

/-- The tree of tokens that are all taken. -/
theorem parseTokens_of_reaches {ts : List Token} {e : Expr} {stack : List Frame}
    (h : Reaches (.before []) ts (.after e stack)) : parseTokens ts = close e stack := by
  have hrun := h.run_append []
  rw [List.append_nil] at hrun
  rw [parseTokens, expression, hrun, run]
  cases close e stack with
  | ok a => rfl
  | error fault => rfl

/-- Tokens that are all taken while an operand has to come are no formula yet. -/
theorem parseTokens_of_reaches_before {ts : List Token} {stack : List Frame}
    (h : Reaches (.before []) ts (.before stack)) : parseTokens ts = .error .incomplete := by
  have hrun := h.run_append []
  rw [List.append_nil] at hrun
  rw [parseTokens, expression, hrun, run]

/-! ## The reader reads the grammar -/

/-- Closing all frames derives the tree from all tokens. -/
theorem Stacked.derives_of_close {stack : List Frame} {ts us : List Token} {l : Level}
    {e e' : Expr} (hs : Stacked stack ts) (hd : Derives l us e)
    (hstack : threshold 0 stack < l.power) (h : close e stack = .ok e') :
    Derives .sum (ts ++ us) e' := by
  induction hs generalizing us l e with
  | nil =>
    cases h
    exact hd.toSum
  | @cons frame stack ts mid _ hframe hclose ih =>
    have hclosed := hclose l us e hstack hd
    cases frame with
    | plus | unary _ | binary _ _ => simpa [Frame.closer] using ih hclosed hframe h
    | group => cases h

/-- Tokens that are read are a formula. -/
theorem derives_of_parseTokens {ts : List Token} {e : Expr} (h : parseTokens ts = .ok e) :
    Derives .sum ts e := by
  rcases reaches_or_stops (.before []) ts with ⟨σ, hreach⟩ | ⟨pre, t, post, σ, rfl, hreach, hstop⟩
  · cases σ with
    | before stack =>
      rw [parseTokens_of_reaches_before hreach] at h
      cases h
    | after a stack =>
      have hread : Reads (.after a stack) ts := by simpa using Reads.start.reaches hreach
      rw [parseTokens_of_reaches hreach] at h
      cases hread with
      | after hs hd => exact hs.derives_of_close hd (threshold_lt_operand _) h
  · rw [parseTokens_of_stops hreach hstop] at h
    cases h

theorem parseTokens_eq_ok_iff {ts : List Token} {e : Expr} :
    parseTokens ts = .ok e ↔ Derives .sum ts e :=
  ⟨derives_of_parseTokens, parseTokens_of_derives⟩

/-- The grammar is unambiguous, at every level and across levels. -/
theorem Derives.unique {l l' : Level} {ts : List Token} {e e' : Expr} (h : Derives l ts e)
    (h' : Derives l' ts e') : e = e' := by
  have hok := (parseTokens_of_derives h.toSum).symm.trans (parseTokens_of_derives h'.toSum)
  exact Except.ok.inj hok

/-- **A text is read exactly when the grammar derives it, with the tree that is
derived.**  A list of tokens has at most one tree.  A token in front of an
operand takes that operand and nothing of what follows it; chains of operators of
one level nest to the left; and no formula holds an unknown token, or an opening
bracket directly behind an operand. -/
theorem parse_eq_ok_iff_derives :
    (∀ (s : String) (e : Expr), parse s = .ok e ↔ Derives .sum (tokenize s) e) ∧
    (∀ (l l' : Level) (ts : List Token) (e e' : Expr),
      Derives l ts e → Derives l' ts e' → e = e') ∧
    (∀ (t : Token) (f : Expr → Expr) (us : List Token) (a : Expr) (factors terms : List Link),
      Prefixes t f → Derives .operand us a →
      (∀ x ∈ factors, (x.op = .mul ∨ x.op = .div ∨ x.op = .mod) ∧
        Derives .operand x.tokens x.tree) →
      (∀ x ∈ terms, (x.op = .add ∨ x.op = .sub) ∧ Derives .product x.tokens x.tree) →
      parseTokens (t :: us ++ Link.tokensOf factors ++ Link.tokensOf terms) =
        .ok (Link.hang (Link.hang (f a) factors) terms)) ∧
    (∀ (ts : List Token) (a : Expr) (factors : List Link), Derives .product ts a →
      (∀ x ∈ factors, (x.op = .mul ∨ x.op = .div ∨ x.op = .mod) ∧
        Derives .operand x.tokens x.tree) →
      parseTokens (ts ++ Link.tokensOf factors) = .ok (Link.hang a factors)) ∧
    (∀ (ts : List Token) (a : Expr) (terms : List Link), Derives .sum ts a →
      (∀ x ∈ terms, (x.op = .add ∨ x.op = .sub) ∧ Derives .product x.tokens x.tree) →
      parseTokens (ts ++ Link.tokensOf terms) = .ok (Link.hang a terms)) ∧
    (∀ (ts : List Token) (e : Expr), parseTokens ts = .ok e →
      (∀ w : String, .unknown w ∉ ts) ∧
      ∀ (pre post : List Token) (t : Token), ts = pre ++ t :: .openBracket :: post →
        t.endsOperand = false) := by
  refine ⟨fun s e => parseTokens_eq_ok_iff, fun l l' ts e e' h h' => h.unique h', ?_, ?_, ?_, ?_⟩
  · intro t f us a factors terms hp ha hfactors hterms
    have hproduct := (Derives.ofOperand (.prefixed hp ha)).product_append_links hfactors
    exact parseTokens_of_derives ((Derives.ofProduct hproduct).sum_append_links hterms)
  · intro ts a factors ha hfactors
    exact parseTokens_of_derives (.ofProduct (ha.product_append_links hfactors))
  · intro ts a terms ha hterms
    exact parseTokens_of_derives (ha.sum_append_links hterms)
  · intro ts e h
    have hd := derives_of_parseTokens h
    refine ⟨hd.ne_unknown, ?_⟩
    rintro pre post t rfl
    have hadjacent := (List.isChain_append_cons_cons.mp hd.isChain).2.1
    by_contra hends
    exact hadjacent (by simpa using hends) rfl

example : parse "-x * y - z" =
    .ok (.binary .sub (.binary .mul (.unary .negate (.name "x")) (.name "y")) (.name "z")) := by
  cbv

end Orchestrion.Formula

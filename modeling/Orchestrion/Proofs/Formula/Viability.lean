import Orchestrion.Proofs.Formula.Reading

set_option autoImplicit false

/-!
# Where reading a formula fails

Tokens are viable when some formula begins with them.  The reader never goes on
behind tokens that are not: as long as it has not failed, what it has read can be
completed, and the first token behind which nothing can be completed is the one
at which it fails.  So the fault depends on that token alone, however deep in
brackets it stands and whatever follows it.
-/

namespace Orchestrion.Formula

/-! ## Viable tokens -/

/-- Whether some formula begins with the tokens. -/
def Viable (ts : List Token) : Prop :=
  ∃ (us : List Token) (e : Expr), Derives .sum (ts ++ us) e

theorem Viable.of_append {ts us : List Token} (h : Viable (ts ++ us)) : Viable ts := by
  obtain ⟨vs, e, hd⟩ := h
  exact ⟨us ++ vs, e, by rwa [← List.append_assoc]⟩

/-- Frames and an operand behind them are completed by the brackets that are
still open. -/
theorem Stacked.viable {stack : List Frame} {ts us : List Token} {l : Level} {e : Expr}
    (hs : Stacked stack ts) (hd : Derives l us e) (hstack : threshold 0 stack < l.power) :
    Viable (ts ++ us) := by
  induction hs generalizing us l e with
  | nil => exact ⟨[], e, by simpa using hd.toSum⟩
  | @cons frame stack ts mid _ hframe hclose ih =>
    have hviable : Viable (ts ++ (mid ++ us ++ frame.closer)) :=
      ih (hclose l us e hstack hd) hframe
    rw [← List.append_assoc, ← List.append_assoc] at hviable
    exact hviable.of_append

/-- What has led to a state is viable: where an operand has to come, a numeral
can. -/
theorem Reads.viable {σ : State} {ts : List Token} (h : Reads σ ts) : Viable ts := by
  cases h with
  | @before stack ts hs =>
    have hviable := hs.viable (.number "0" ⟨0, 0⟩) (threshold_lt_operand stack)
    exact hviable.of_append
  | after hs hd => exact hs.viable hd (threshold_lt_operand _)

/-- Behind a token at which the reader fails, nothing can be completed. -/
theorem not_viable_of_stops {pre : List Token} {σ : State} {t : Token}
    (hreach : Reaches (.before []) pre σ) (h : ∀ σ', step 0 σ t ≠ .next σ') :
    ¬ Viable (pre ++ [t]) := by
  rintro ⟨post, e, hd⟩
  have hok := parseTokens_of_derives hd
  rw [List.append_assoc, List.singleton_append, parseTokens_of_stops hreach h] at hok
  cases hok

/-- An opening bracket leads nowhere only behind an operand. -/
theorem Reads.exists_last {σ : State} {ts : List Token} (hr : Reads σ ts)
    (h : ∀ σ', step 0 σ .openBracket ≠ .next σ') :
    ∃ init t, ts = init ++ [t] ∧ t.endsOperand = true := by
  cases hr with
  | before _ => exact absurd rfl (h _)
  | @after stack ts us e _ hd =>
    obtain ⟨init, t, rfl, ht⟩ := hd.exists_last
    exact ⟨ts ++ init, t, by simp, ht⟩

/-! ## Faults -/

/-- Tokens that are all taken and are no formula are only not complete. -/
theorem incomplete_of_reaches {ts : List Token} {σ : State} {fault : Fault}
    (hreach : Reaches (.before []) ts σ) (h : parseTokens ts = .error fault) :
    fault = .incomplete := by
  cases σ with
  | before stack =>
    rw [parseTokens_of_reaches_before hreach] at h
    cases h
    rfl
  | after e stack =>
    rw [parseTokens_of_reaches hreach] at h
    exact close_of_error h

/-- **The first token that cannot be continued decides the fault.**  When tokens
that are refused are viable, something is missing.  When they are not, there is a
first token behind which nothing can be completed; it alone decides the fault,
which is that something is missing for an opening bracket, directly behind an
operand, and that the token is unexpected for every other one. -/
theorem fault_of_parseTokens_eq_error {ts : List Token} {fault : Fault}
    (h : parseTokens ts = .error fault) :
    (Viable ts → fault = .incomplete) ∧
    (¬ Viable ts → ∃ i : Fin ts.length,
      (∀ j ≤ i.val, Viable (ts.take j)) ∧
      ¬ Viable (ts.take (i + 1)) ∧
      fault = (if ts[i] = .openBracket then .incomplete else .unexpected) ∧
      (ts[i] = .openBracket →
        ∃ init t, ts.take i = init ++ [t] ∧ t.endsOperand = true) ∧
      ∀ rest : List Token, parseTokens (ts.take (i + 1) ++ rest) = .error fault) := by
  rcases reaches_or_stops (.before []) ts with ⟨σ, hreach⟩ | ⟨pre, t, post, σ, rfl, hreach, hstop⟩
  · have hviable : Viable ts := by simpa using (Reads.start.reaches hreach).viable
    exact ⟨fun _ => incomplete_of_reaches hreach h, fun hnot => absurd hviable hnot⟩
  · have hread : Reads σ pre := by simpa using Reads.start.reaches hreach
    have hnot : ¬ Viable (pre ++ [t]) := not_viable_of_stops hreach hstop
    have hfault : t.fault = fault := by
      rw [parseTokens_of_stops hreach hstop] at h
      exact Except.error.inj h
    have htake : (pre ++ t :: post).take (pre.length + 1) = pre ++ [t] := by
      simp [List.take_append, List.take_of_length_le (Nat.le_succ pre.length)]
    constructor
    · intro hviable
      rw [← List.singleton_append, ← List.append_assoc] at hviable
      exact absurd hviable.of_append hnot
    · intro _
      refine ⟨⟨pre.length, by simp⟩, ?_, ?_, ?_, ?_, ?_⟩
      · intro j hj
        have hviable := hread.viable
        rw [← List.take_append_drop j pre] at hviable
        simpa [List.take_append_of_le_length hj] using hviable.of_append
      · simpa only [htake] using hnot
      · rw [← hfault]
        cases t <;> simp [Token.fault]
      · intro ht
        have ht : t = .openBracket := by simpa using ht
        subst ht
        simpa using hread.exists_last hstop
      · intro rest
        rw [← hfault, htake, List.append_assoc]
        exact parseTokens_of_stops hreach hstop rest

end Orchestrion.Formula

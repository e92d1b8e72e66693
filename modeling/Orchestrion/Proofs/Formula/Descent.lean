import Orchestrion.Proofs.Formula.Reading

set_option autoImplicit false

/-!
# Reading a formula by calls

The reader keeps its frames on a stack of its own.  The same reading can be done by calls: an
expression is an operand and the operators after it, and an operand may be an expression in
turn.  Here the calls are written down, each with the places of the tokens that are taken
during it and with the number of calls that are open at once within it.

Every call ends (`exists_descent`), in one way only (`Descent.unique`), and with what the reader
gives (`Descent.run_eq`).  That it ends is shown for the number of tokens that are left: a token
is taken before every call within another, and a call that has succeeded has taken one.
-/

namespace Orchestrion.Formula

/-! ## Calls -/

/-- What a token begins where an operand has to come. -/
inductive Opening where
  /-- an operand of its own -/
  | value (e : Expr)
  /-- an operand that something is made of -/
  | wrapped (f : Expr → Expr)
  | group
  | nothing

/-- A plus sign makes nothing of its operand. -/
def Token.opening : Token → Opening
  | .word w =>
    match function? w with
    | some op => .wrapped (.unary op)
    | none => .value (.name w)
  | .number _ value => .value (.number value)
  | .operator .add => .wrapped id
  | .operator .sub => .wrapped (.unary .negate)
  | .openBracket => .group
  | _ => .nothing

/-- What a call is for. -/
inductive Task where
  /-- an operand and the operators after it that bind tighter than a limit -/
  | expression (limit : Nat)
  | operand
  /-- the operators after an operand that bind tighter than a limit -/
  | operators (limit : Nat) (operand : Expr)
  deriving DecidableEq, Repr

/-- What a call gives: a tree and the place behind it. -/
abbrev Found := Except Fault (Expr × Nat)

/-- The closing bracket behind what has been found: the places of the tokens that are taken for
it, and what is found with it. -/
def closing (ts : List Token) : Found → List Nat × Found
  | .error fault => ([], .error fault)
  | .ok (e, place) =>
    match ts[place]? with
    | some .closeBracket => ([place], .ok (e, place + 1))
    | some _ => ([], .error .unexpected)
    | none => ([], .error .incomplete)

/-- A call that begins at a place in some tokens: the places of the tokens taken until it ends,
in the order in which they are taken, the number of expressions that are open at once within
it, and what it gives. -/
inductive Descent (ts : List Token) : Task → Nat → List Nat → Nat → Found → Prop
  | fails {limit start depth : Nat} {taken : List Nat} {fault : Fault} :
      Descent ts .operand start taken depth (.error fault) →
      Descent ts (.expression limit) start taken depth (.error fault)
  | goesOn {limit start place depth depth' : Nat} {taken taken' : List Nat} {e : Expr}
      {r : Found} :
      Descent ts .operand start taken depth (.ok (e, place)) →
      Descent ts (.operators limit e) place taken' depth' r →
      Descent ts (.expression limit) start (taken ++ taken') (max depth depth') r
  | missing {start : Nat} : ts[start]? = none →
      Descent ts .operand start [] 0 (.error .incomplete)
  | misplaced {start : Nat} {t : Token} : ts[start]? = some t → t.opening = .nothing →
      Descent ts .operand start [start] 0 (.error .unexpected)
  | value {start : Nat} {t : Token} {e : Expr} : ts[start]? = some t → t.opening = .value e →
      Descent ts .operand start [start] 0 (.ok (e, start + 1))
  | wrapped {start depth : Nat} {t : Token} {f : Expr → Expr} {taken : List Nat} {r : Found} :
      ts[start]? = some t → t.opening = .wrapped f →
      Descent ts (.expression unaryPower) (start + 1) taken depth r →
      Descent ts .operand start (start :: taken) (depth + 1) (r.map (Prod.map f id))
  | group {start depth : Nat} {t : Token} {taken : List Nat} {r : Found} :
      ts[start]? = some t → t.opening = .group →
      Descent ts (.expression 0) (start + 1) taken depth r →
      Descent ts .operand start (start :: taken ++ (closing ts r).1) (depth + 1) (closing ts r).2
  | stops {limit start : Nat} {e : Expr} : (∀ t ∈ ts[start]?, t.power ≤ limit) →
      Descent ts (.operators limit e) start [] 0 (.ok (e, start))
  | bracket {limit start : Nat} {e : Expr} :
      ts[start]? = some .openBracket → limit < Token.openBracket.power →
      Descent ts (.operators limit e) start [start] 0 (.error .incomplete)
  | roundFails {limit start depth : Nat} {taken : List Nat} {e : Expr} {op : BinaryOp}
      {fault : Fault} :
      ts[start]? = some (.operator op) → limit < (Token.operator op).power →
      Descent ts (.expression (Token.operator op).power) (start + 1) taken depth (.error fault) →
      Descent ts (.operators limit e) start (start :: taken) (depth + 1) (.error fault)
  | round {limit start place depth depth' : Nat} {taken taken' : List Nat} {e rhs : Expr}
      {op : BinaryOp} {r : Found} :
      ts[start]? = some (.operator op) → limit < (Token.operator op).power →
      Descent ts (.expression (Token.operator op).power) (start + 1) taken depth
        (.ok (rhs, place)) →
      Descent ts (.operators limit (.binary op e rhs)) place taken' depth' r →
      Descent ts (.operators limit e) start (start :: taken ++ taken') (max (depth + 1) depth') r

variable {ts : List Token} {task : Task} {start depth : Nat} {taken : List Nat} {r : Found}

/-- A closing bracket is the token behind what it closes. -/
theorem closing_ok {e : Expr} {place : Nat} (h : (closing ts r).2 = .ok (e, place)) :
    ∃ p, r = .ok (e, p) ∧ ts[p]? = some .closeBracket ∧ place = p + 1 ∧ (closing ts r).1 = [p] := by
  obtain _ | ⟨e', p⟩ := r
  · cases h
  · simp only [closing] at h ⊢
    split at h
    case h_1 hp =>
      cases h
      exact ⟨p, rfl, hp, rfl, rfl⟩
    all_goals cases h

/-- No token is taken for a closing bracket that is not there. -/
theorem closing_error {fault : Fault} (h : (closing ts r).2 = .error fault) :
    (closing ts r).1 = [] := by
  obtain _ | ⟨e', p⟩ := r
  · rfl
  · simp only [closing] at h ⊢
    split at h
    case h_1 => cases h
    all_goals rfl

/-- How the operators after an operand go on: they end in front of what does not bind tight
enough, they fail with the operand of the first of them, or they take that operator and its
operand, two tokens at least, and go on behind these. -/
inductive GoesOn (ts : List Token) (limit start : Nat) (e : Expr) (r : Found) : Prop
  | stops : (∀ t ∈ ts[start]?, t.power ≤ limit) → r = .ok (e, start) → GoesOn ts limit start e r
  | fails {t : Token} {fault : Fault} : ts[start]? = some t → limit < t.power →
      r = .error fault →
      (t = .openBracket ∨ ∃ taken depth,
        Descent ts (.expression t.power) (start + 1) taken depth (.error fault)) →
      GoesOn ts limit start e r
  | round {op : BinaryOp} {rhs : Expr} {place depth : Nat} {taken : List Nat} :
      ts[start]? = some (.operator op) → start + 2 ≤ place →
      Descent ts (.operators limit (.binary op e rhs)) place taken depth r →
      GoesOn ts limit start e r

namespace Descent

/-! ## Places -/

/-- A call takes the tokens from its place on, one after the other, and ends behind the last of
them. -/
theorem takes (h : Descent ts task start taken depth r) :
    ∃ n, taken = List.range' start n ∧ ∀ e place, r = .ok (e, place) → place = start + n := by
  induction h with
  | fails _ ih =>
    obtain ⟨n, htaken, -⟩ := ih
    exact ⟨n, htaken, by simp⟩
  | goesOn _ _ ih ih' =>
    obtain ⟨n, rfl, hplace⟩ := ih
    obtain rfl := hplace _ _ rfl
    obtain ⟨n', rfl, hplace'⟩ := ih'
    exact ⟨n + n', List.range'_append_1, fun e p hr => by rw [hplace' e p hr, Nat.add_assoc]⟩
  | missing _ => exact ⟨0, rfl, by simp⟩
  | misplaced _ _ => exact ⟨1, rfl, by simp⟩
  | value _ _ => exact ⟨1, rfl, by simp⟩
  | @wrapped _ _ _ _ _ r _ _ _ ih =>
    obtain ⟨n, rfl, hplace⟩ := ih
    refine ⟨n + 1, rfl, fun e p hr => ?_⟩
    cases r with
    | error fault => cases hr
    | ok found =>
      cases hr
      rw [id, hplace _ _ rfl]
      omega
  | @group _ _ _ _ r _ _ _ ih =>
    obtain ⟨n, rfl, hplace⟩ := ih
    cases hclosing : (closing ts r).2 with
    | error fault =>
      rw [closing_error hclosing, List.append_nil]
      exact ⟨n + 1, rfl, by simp⟩
    | ok found =>
      obtain ⟨p, rfl, _, hend, htaken⟩ := closing_ok hclosing
      obtain rfl := hplace _ _ rfl
      refine ⟨n + 2, ?_, ?_⟩
      · rw [htaken, List.range'_succ, List.range'_concat, Nat.one_mul, List.cons_append]
      · rintro e p ⟨⟩
        omega
  | stops _ => exact ⟨0, rfl, by simp⟩
  | bracket _ _ => exact ⟨1, rfl, by simp⟩
  | roundFails _ _ _ ih =>
    obtain ⟨n, rfl, -⟩ := ih
    exact ⟨n + 1, rfl, by simp⟩
  | round _ _ _ _ ih ih' =>
    obtain ⟨n, rfl, hplace⟩ := ih
    obtain rfl := hplace _ _ rfl
    obtain ⟨n', rfl, hplace'⟩ := ih'
    refine ⟨n + 1 + n', ?_, fun e p hr => ?_⟩
    · rw [← List.range'_append_1, List.range'_succ, Nat.add_right_comm, Nat.add_assoc]
    · rw [hplace' e p hr]
      omega

/-- Only tokens that are there are taken. -/
theorem taken_lt (h : Descent ts task start taken depth r) : ∀ i ∈ taken, i < ts.length := by
  have hlt {i : Nat} {t : Token} (h : ts[i]? = some t) : i < ts.length :=
    (List.getElem?_eq_some_iff.mp h).1
  induction h with
  | fails _ ih => exact ih
  | goesOn _ _ ih ih' => simpa [or_imp, forall_and] using And.intro ih ih'
  | missing _ => simp
  | misplaced ht _ | value ht _ => simpa using hlt ht
  | wrapped ht _ _ ih | roundFails ht _ _ ih => simpa using And.intro (hlt ht) ih
  | @group _ _ _ _ r ht _ _ ih =>
    cases hclosing : (closing ts r).2 with
    | error fault =>
      rw [closing_error hclosing]
      simpa using And.intro (hlt ht) ih
    | ok found =>
      obtain ⟨p, -, hclose, -, htaken⟩ := closing_ok hclosing
      rw [htaken]
      simpa [or_imp, forall_and] using ⟨hlt ht, ih, hlt hclose⟩
  | stops _ => simp
  | bracket ht _ => simpa using hlt ht
  | round ht _ _ _ ih ih' => simpa [or_imp, forall_and] using ⟨hlt ht, ih, ih'⟩

/-- Before every call within another a token is taken. -/
theorem depth_le (h : Descent ts task start taken depth r) : depth ≤ taken.length := by
  induction h with
  | fails _ ih => exact ih
  | goesOn _ _ ih ih' =>
    rw [List.length_append]
    omega
  | missing _ | misplaced _ _ | value _ _ | stops _ | bracket _ _ => exact Nat.zero_le _
  | wrapped _ _ _ ih | roundFails _ _ _ ih => exact Nat.succ_le_succ ih
  | group _ _ _ ih =>
    rw [List.cons_append, List.length_cons, List.length_append]
    omega
  | round _ _ _ _ ih ih' =>
    rw [List.cons_append, List.length_cons, List.length_append]
    omega

theorem start_mem_of_operand {e : Expr} {place : Nat}
    (h : Descent ts .operand start taken depth (.ok (e, place))) : start ∈ taken := by
  generalize hr : (.ok (e, place) : Found) = r at h
  cases h with
  | missing _ => cases hr
  | misplaced _ _ | value _ _ | wrapped _ _ _ | group _ _ _ => exact List.mem_cons_self

/-- An operand that has been found has a token. -/
theorem lt_of_operand {e : Expr} {place : Nat}
    (h : Descent ts .operand start taken depth (.ok (e, place))) : start < place := by
  obtain ⟨n, rfl, hplace⟩ := h.takes
  rw [hplace _ _ rfl]
  exact (List.mem_range'_1.mp h.start_mem_of_operand).2

theorem le_of_operators {limit place : Nat} {e e' : Expr}
    (h : Descent ts (.operators limit e) start taken depth (.ok (e', place))) : start ≤ place := by
  obtain ⟨n, -, hplace⟩ := h.takes
  have hend := hplace _ _ rfl
  omega

/-- An expression that has been found has a token. -/
theorem lt_of_expression {limit place : Nat} {e : Expr}
    (h : Descent ts (.expression limit) start taken depth (.ok (e, place))) : start < place := by
  cases h with
  | goesOn hoperand hoperators =>
    exact Nat.lt_of_lt_of_le hoperand.lt_of_operand hoperators.le_of_operators

/-! ## What stands behind -/

theorem power_le_of_operators {limit : Nat} {e : Expr}
    (h : Descent ts (.operators limit e) start taken depth r) :
    ∀ e' place, r = .ok (e', place) → ∀ t ∈ ts[place]?, t.power ≤ limit := by
  generalize htask : Task.operators limit e = task at h
  induction h generalizing e with
  | stops h =>
    cases htask
    rintro e' place ⟨⟩
    exact h
  | bracket _ _ => simp
  | roundFails _ _ _ _ => simp
  | round _ _ _ _ _ ih =>
    cases htask
    exact ih rfl
  | _ => cases htask

/-- Behind an expression stands no token that binds tighter than its limit. -/
theorem power_le {limit place : Nat} {e : Expr}
    (h : Descent ts (.expression limit) start taken depth (.ok (e, place))) :
    ∀ t ∈ ts[place]?, t.power ≤ limit := by
  cases h with
  | goesOn _ hoperators => exact hoperators.power_le_of_operators _ _ rfl

theorem goes {limit : Nat} {e : Expr} (h : Descent ts (.operators limit e) start taken depth r) :
    GoesOn ts limit start e r := by
  cases h with
  | stops hstops => exact .stops hstops rfl
  | bracket ht hlt => exact .fails ht hlt rfl (.inl rfl)
  | roundFails ht hlt h => exact .fails ht hlt rfl (.inr ⟨_, _, h⟩)
  | round ht _ hoperand hrest => exact .round ht hoperand.lt_of_expression hrest

/-! ## One way to end -/

/-- What comes next is told by the token at the place, at every step. -/
theorem unique (h : Descent ts task start taken depth r) :
    ∀ {taken' : List Nat} {depth' : Nat} {r' : Found}, Descent ts task start taken' depth' r' →
      taken' = taken ∧ depth' = depth ∧ r' = r := by
  induction h with
  | fails _ ih =>
    intro _ _ _ h'
    cases h' with
    | fails h' => exact ih h'
    | goesOn h' _ => cases (ih h').2.2
  | goesOn _ _ ih ih' =>
    intro _ _ _ h'
    cases h' with
    | fails h' => cases (ih h').2.2
    | goesOn hoperand hoperators =>
      obtain ⟨rfl, rfl, hr⟩ := ih hoperand
      cases hr
      obtain ⟨rfl, rfl, rfl⟩ := ih' hoperators
      exact ⟨rfl, rfl, rfl⟩
  | missing ht =>
    intro _ _ _ h'
    cases h' with
    | missing _ => exact ⟨rfl, rfl, rfl⟩
    | misplaced ht' _ | value ht' _ | wrapped ht' _ _ | group ht' _ _ => cases ht.symm.trans ht'
  | misplaced ht hnothing =>
    intro _ _ _ h'
    cases h' with
    | misplaced _ _ => exact ⟨rfl, rfl, rfl⟩
    | _ => simp_all
  | value ht hvalue =>
    intro _ _ _ h'
    cases h' with
    | value ht' hvalue' =>
      cases ht.symm.trans ht'
      cases hvalue.symm.trans hvalue'
      exact ⟨rfl, rfl, rfl⟩
    | _ => simp_all
  | wrapped ht hwrapped _ ih =>
    intro _ _ _ h'
    cases h' with
    | wrapped ht' hwrapped' h' =>
      cases ht.symm.trans ht'
      cases hwrapped.symm.trans hwrapped'
      obtain ⟨rfl, rfl, rfl⟩ := ih h'
      exact ⟨rfl, rfl, rfl⟩
    | _ => simp_all
  | group ht hgroup _ ih =>
    intro _ _ _ h'
    cases h' with
    | group ht' hgroup' h' =>
      obtain ⟨rfl, rfl, rfl⟩ := ih h'
      exact ⟨rfl, rfl, rfl⟩
    | _ => simp_all
  | stops hstops =>
    intro _ _ _ h'
    cases h' with
    | stops _ => exact ⟨rfl, rfl, rfl⟩
    | bracket ht hlt | roundFails ht hlt _ | round ht hlt _ _ =>
      exact absurd hlt (Nat.not_lt.mpr (hstops _ ht))
  | bracket ht hlt =>
    intro _ _ _ h'
    cases h' with
    | stops hstops => exact absurd hlt (Nat.not_lt.mpr (hstops _ ht))
    | bracket _ _ => exact ⟨rfl, rfl, rfl⟩
    | roundFails ht' _ _ | round ht' _ _ _ => cases ht.symm.trans ht'
  | roundFails ht hlt _ ih =>
    intro _ _ _ h'
    cases h' with
    | stops hstops => exact absurd hlt (Nat.not_lt.mpr (hstops _ ht))
    | bracket ht' _ => cases ht.symm.trans ht'
    | roundFails ht' _ h' =>
      cases ht.symm.trans ht'
      obtain ⟨rfl, rfl, hr⟩ := ih h'
      exact ⟨rfl, rfl, by rw [Except.error.inj hr]⟩
    | round ht' _ h' _ =>
      cases ht.symm.trans ht'
      cases (ih h').2.2
  | round ht hlt _ _ ih ih' =>
    intro _ _ _ h'
    cases h' with
    | stops hstops => exact absurd hlt (Nat.not_lt.mpr (hstops _ ht))
    | bracket ht' _ => cases ht.symm.trans ht'
    | roundFails ht' _ h' =>
      cases ht.symm.trans ht'
      cases (ih h').2.2
    | round ht' _ h' hrest =>
      cases ht.symm.trans ht'
      obtain ⟨rfl, rfl, hr⟩ := ih h'
      cases hr
      obtain ⟨rfl, rfl, rfl⟩ := ih' hrest
      exact ⟨rfl, rfl, rfl⟩

end Descent

/-! ## What the reader gives -/

/-- The state of the reader when a call begins. -/
def Task.state (stack : List Frame) : Task → State
  | .operators _ e => .after e stack
  | _ => .before stack

/-- Whether a call stands for what the reader does between some frames: its limit is that of the
innermost frame, or no token binds tighter at all. -/
def Task.Fits (limit : Nat) (stack : List Frame) : Task → Prop
  | .expression limit' | .operators limit' _ => threshold limit stack = limit' ∨ unaryPower ≤ limit'
  | .operand => True

/-- How the reader goes on behind what has been found. -/
def resume (limit : Nat) (stack : List Frame) (ts : List Token) :
    Found → Except Fault (Expr × List Token)
  | .ok (e, place) => run limit (.after e stack) (ts.drop place)
  | .error fault => .error fault

theorem drop_of_getElem? {t : Token} (h : ts[start]? = some t) :
    ts.drop start = t :: ts.drop (start + 1) := by
  obtain ⟨hlt, rfl⟩ := List.getElem?_eq_some_iff.mp h
  exact List.drop_eq_getElem_cons hlt

/-- A limit that a token binds tighter than is that of the innermost frame. -/
theorem threshold_of_fits {limit limit' : Nat} {stack : List Frame} {t : Token}
    (h : threshold limit stack = limit' ∨ unaryPower ≤ limit') (ht : limit' < t.power) :
    threshold limit stack = limit' := by
  have hpower := t.power_le
  omega

/-- A token that wraps an operand is one in front of it. -/
theorem prefixes_of_wrapped {t : Token} {f : Expr → Expr} (h : t.opening = .wrapped f) :
    Prefixes t f := by
  cases t with
  | word w =>
    simp only [Token.opening] at h
    split at h
    · rename_i op hop
      cases h
      exact .function (function?_eq_some_iff.mp hop)
    · cases h
  | operator op =>
    cases op with
    | add =>
      cases h
      exact .plus
    | sub =>
      cases h
      exact .minus
    | mul | div | mod => cases h
  | number _ _ | openBracket | closeBracket | unknown _ => cases h

/-- A token in front of an operand wraps what is found behind it. -/
theorem run_wrapped {limit : Nat} {t : Token} {f : Expr → Expr} {stack : List Frame}
    (ht : ts[start]? = some t) (hwrapped : t.opening = .wrapped f)
    (h : ∀ stack', run limit (.before stack') (ts.drop (start + 1)) = resume limit stack' ts r) :
    run limit (.before stack) (ts.drop start) = resume limit stack ts (r.map (Prod.map f id)) := by
  obtain ⟨frame, hg, -, -, hpower, hclose, hstep⟩ := (prefixes_of_wrapped hwrapped).exists_frame
  rw [drop_of_getElem? ht, run_of_step (hstep limit stack), h]
  obtain fault | ⟨e, place⟩ := r
  · rfl
  · rw [← hclose]
    exact run_close hg fun u _ => hpower ▸ u.power_le

/-- What a token begins is what it begins for the reader. -/
theorem step_of_opening {limit : Nat} {stack : List Frame} {t : Token} :
    (t.opening = .nothing → step limit (.before stack) t = .fail .unexpected) ∧
    (∀ e, t.opening = .value e → step limit (.before stack) t = .next (.after e stack)) ∧
    (t.opening = .group → step limit (.before stack) t = .next (.before (.group :: stack))) := by
  cases t with
  | word w => cases hw : function? w <;> simp [Token.opening, step, startOperand, hw]
  | operator op => cases op <;> simp [Token.opening, step, startOperand]
  | _ => simp [Token.opening, step, startOperand]

/-- What is found in a bracket ends in front of the bracket that closes it, or in front of
nothing that could. -/
theorem resume_group {limit : Nat} {stack : List Frame}
    (hpower : ∀ e place, r = .ok (e, place) → ∀ t ∈ ts[place]?, t.power ≤ 0) :
    resume limit (.group :: stack) ts r = resume limit stack ts (closing ts r).2 := by
  obtain fault | ⟨e, place⟩ := r
  · rfl
  · have ht := hpower _ _ rfl
    simp only [resume, closing]
    cases hnext : ts[place]? with
    | none =>
      rw [List.drop_eq_nil_of_le (List.getElem?_eq_none_iff.mp hnext)]
      rfl
    | some t =>
      rw [drop_of_getElem? hnext]
      cases t with
      | operator op => cases op <;> cases ht _ hnext
      | openBracket => cases ht _ hnext
      | closeBracket => exact run_of_step rfl _
      | word _ | number _ _ | unknown _ => rfl

/-- A token that leads nowhere ends the reading with its fault. -/
theorem run_of_fail {limit : Nat} {σ : State} {t : Token} {fault : Fault}
    (h : step limit σ t = .fail fault) (rest : List Token) :
    run limit σ (t :: rest) = .error fault := by
  rw [run, h]

/-- **The calls give what the reader gives.**  Between frames of which the innermost lets go of
an operand as late as the call does, a call does what the reader does until it comes back to
these frames. -/
theorem Descent.run_eq {limit : Nat} (h : Descent ts task start taken depth r) :
    ∀ stack, task.Fits limit stack →
      run limit (task.state stack) (ts.drop start) = resume limit stack ts r := by
  induction h with
  | fails _ ih => exact fun stack _ => ih stack trivial
  | goesOn _ _ ih ih' => exact fun stack hfits => (ih stack trivial).trans (ih' stack hfits)
  | missing ht =>
    intro stack _
    rw [List.drop_eq_nil_of_le (List.getElem?_eq_none_iff.mp ht)]
    rfl
  | misplaced ht hnothing =>
    intro stack _
    rw [drop_of_getElem? ht]
    exact run_of_fail (step_of_opening.1 hnothing) _
  | value ht hvalue =>
    intro stack _
    rw [drop_of_getElem? ht]
    exact run_of_step (step_of_opening.2.1 _ hvalue) _
  | wrapped ht hwrapped _ ih =>
    exact fun stack _ => run_wrapped ht hwrapped fun stack' => ih stack' (.inr (Nat.le_refl _))
  | @group _ _ _ _ r ht hgroup h ih =>
    intro stack _
    have hpower : ∀ e place, r = .ok (e, place) → ∀ t ∈ ts[place]?, t.power ≤ 0 := by
      rintro e place rfl
      exact h.power_le
    rw [drop_of_getElem? ht, ← resume_group hpower]
    exact (run_of_step (step_of_opening.2.2 hgroup) _).trans (ih (.group :: stack) (.inl rfl))
  | stops _ => exact fun _ _ => rfl
  | @bracket _ _ e ht hlt =>
    intro stack hfits
    have hthreshold := threshold_of_fits hfits hlt
    rw [← hthreshold] at hlt
    have hstep : step limit (.after e stack) .openBracket = .fail .incomplete :=
      endOperand_of_threshold_lt hlt
    rw [drop_of_getElem? ht]
    exact run_of_fail hstep _
  | @roundFails _ _ _ _ e op _ ht hlt _ ih =>
    intro stack hfits
    have hthreshold := threshold_of_fits hfits hlt
    rw [← hthreshold, ← op.power_level] at hlt
    rw [drop_of_getElem? ht, Task.state, run_take hlt]
    exact ih (.binary e op :: stack) (.inl rfl)
  | @round _ _ _ _ _ _ _ e rhs op _ ht hlt h _ ih ih' =>
    intro stack hfits
    have hthreshold := threshold_of_fits hfits hlt
    rw [← hthreshold, ← op.power_level] at hlt
    rw [drop_of_getElem? ht, Task.state, run_take hlt]
    refine (ih (.binary e op :: stack) (.inl rfl)).trans ?_
    refine Eq.trans ?_ (ih' stack hfits)
    refine run_close (by simp) fun t hnext => ?_
    rw [List.head?_drop] at hnext
    exact h.power_le t hnext

/-- An expression is what the reader finds from its place on. -/
theorem Descent.expression_eq {limit : Nat}
    (h : Descent ts (.expression limit) start taken depth r) :
    expression limit (ts.drop start) = r.map fun found => (found.1, ts.drop found.2) := by
  refine (h.run_eq [] (.inl rfl)).trans ?_
  obtain fault | ⟨e, place⟩ := r
  · rfl
  · have hpower := h.power_le
    simp only [resume, Except.map]
    cases hnext : ts[place]? with
    | none =>
      rw [List.drop_eq_nil_of_le (List.getElem?_eq_none_iff.mp hnext)]
      rfl
    | some t =>
      have hdone : step limit (.after e []) t = .done e :=
        if_neg (Nat.not_lt.mpr (hpower t hnext))
      rw [drop_of_getElem? hnext, run, hdone]

/-! ## Every call ends -/

/-- A call ends if all calls for expressions further on do. -/
theorem exists_descent_operand
    (h : ∀ limit place, start < place → start < ts.length →
      ∃ taken depth r, Descent ts (.expression limit) place taken depth r) :
    ∃ taken depth r, Descent ts .operand start taken depth r := by
  cases ht : ts[start]? with
  | none => exact ⟨_, _, _, .missing ht⟩
  | some t =>
    have hlt : start < ts.length := (List.getElem?_eq_some_iff.mp ht).1
    cases hopening : t.opening with
    | value e => exact ⟨_, _, _, .value ht hopening⟩
    | nothing => exact ⟨_, _, _, .misplaced ht hopening⟩
    | wrapped f =>
      obtain ⟨taken, depth, r, hr⟩ := h unaryPower (start + 1) (Nat.lt_succ_self _) hlt
      exact ⟨_, _, _, .wrapped ht hopening hr⟩
    | group =>
      obtain ⟨taken, depth, r, hr⟩ := h 0 (start + 1) (Nat.lt_succ_self _) hlt
      exact ⟨_, _, _, .group ht hopening hr⟩

theorem exists_descent_operators {limit : Nat} {e : Expr}
    (h : ∀ limit place, start < place → start < ts.length →
      ∃ taken depth r, Descent ts (.expression limit) place taken depth r)
    (h' : ∀ e place, start < place → start < ts.length →
      ∃ taken depth r, Descent ts (.operators limit e) place taken depth r) :
    ∃ taken depth r, Descent ts (.operators limit e) start taken depth r := by
  by_cases hstops : ∀ t ∈ ts[start]?, t.power ≤ limit
  · exact ⟨_, _, _, .stops hstops⟩
  · push Not at hstops
    obtain ⟨t, ht, hlt⟩ := hstops
    have hlength : start < ts.length := (List.getElem?_eq_some_iff.mp ht).1
    cases t with
    | operator op =>
      obtain ⟨taken, depth, r, hr⟩ :=
        h (Token.operator op).power (start + 1) (Nat.lt_succ_self _) hlength
      obtain fault | ⟨rhs, place⟩ := r
      · exact ⟨_, _, _, .roundFails ht hlt hr⟩
      · have hplace : start < place := Nat.lt_of_succ_lt hr.lt_of_expression
        obtain ⟨taken', depth', r', hr'⟩ := h' (.binary op e rhs) place hplace hlength
        exact ⟨_, _, _, .round ht hlt hr hr'⟩
    | openBracket => exact ⟨_, _, _, .bracket ht hlt⟩
    | word _ | number _ _ | closeBracket | unknown _ => cases hlt

theorem exists_descent_from (ts : List Token) (start : Nat) :
    (∀ limit, ∃ taken depth r, Descent ts (.expression limit) start taken depth r) ∧
      ∀ limit e, ∃ taken depth r, Descent ts (.operators limit e) start taken depth r := by
  -- on the number of tokens that are left
  induction hn : ts.length - start using Nat.strong_induction_on generalizing start with
  | _ n ih =>
    have hlater {place : Nat} (hplace : start < place) (hlt : start < ts.length) :
        ts.length - place < n := by omega
    have hexpression : ∀ limit place, start < place → start < ts.length →
        ∃ taken depth r, Descent ts (.expression limit) place taken depth r :=
      fun limit place hplace hlt => (ih _ (hlater hplace hlt) place rfl).1 limit
    have hoperators (limit : Nat) (e : Expr) :
        ∃ taken depth r, Descent ts (.operators limit e) start taken depth r :=
      exists_descent_operators hexpression fun e place hplace hlt =>
        (ih _ (hlater hplace hlt) place rfl).2 limit e
    refine ⟨fun limit => ?_, hoperators⟩
    obtain ⟨taken, depth, r, hr⟩ := exists_descent_operand hexpression
    obtain fault | ⟨e, place⟩ := r
    · exact ⟨_, _, _, .fails hr⟩
    · have hplace : start < place := hr.lt_of_operand
      have hlt : start < ts.length := hr.taken_lt _ hr.start_mem_of_operand
      obtain ⟨taken', depth', r', hr'⟩ := (ih _ (hlater hplace hlt) place rfl).2 limit e
      exact ⟨_, _, _, .goesOn hr hr'⟩

/-- A call for an expression ends. -/
theorem exists_descent (ts : List Token) (limit start : Nat) :
    ∃ taken depth r, Descent ts (.expression limit) start taken depth r :=
  (exists_descent_from ts start).1 limit

/-! ## The order of a call -/

/-- What a call for an expression keeps to, however it ends. -/
structure IsOrderly (ts : List Token) (limit start : Nat) (taken : List Nat) (depth : Nat)
    (r : Found) : Prop where
  calls : Descent ts (.expression limit) start taken depth r
  /-- it can end in no other way -/
  only : ∀ taken' depth' r', Descent ts (.expression limit) start taken' depth' r' →
    taken' = taken ∧ depth' = depth ∧ r' = r
  /-- it gives what the reader gives -/
  reads : expression limit (ts.drop start) = r.map fun found => (found.1, ts.drop found.2)
  /-- tokens are taken one after the other, none of them twice -/
  inOrder : taken = List.range' start taken.length
  inside : start ≤ ts.length → start + taken.length ≤ ts.length
  /-- no more expressions are open within it than tokens are taken -/
  shallow : depth ≤ taken.length
  /-- an expression has a token, ends behind its last one, and leaves none that binds tighter -/
  ends : ∀ e place, r = .ok (e, place) →
    start < place ∧ place = start + taken.length ∧ ∀ t ∈ ts[place]?, t.power ≤ limit

theorem Descent.isOrderly {limit : Nat} (h : Descent ts (.expression limit) start taken depth r) :
    IsOrderly ts limit start taken depth r := by
  obtain ⟨n, htaken, hplace⟩ := h.takes
  have hlength : taken.length = n := by rw [htaken, List.length_range']
  constructor
  case calls => exact h
  case only => exact fun _ _ _ h' => h.unique h'
  case reads => exact h.expression_eq
  case inOrder => rw [hlength, htaken]
  case inside =>
    intro hstart
    rw [hlength]
    cases n with
    | zero => exact hstart
    | succ n =>
      have hlast : start + n ∈ taken := by
        rw [htaken, List.mem_range'_1]
        omega
      exact h.taken_lt _ hlast
  case shallow => exact h.depth_le
  case ends =>
    rintro e place rfl
    exact ⟨h.lt_of_expression, by rw [hlength, hplace _ _ rfl], h.power_le⟩

/-- What a whole formula makes of its only expression: no token may be left. -/
def whole (ts : List Token) : Found → Except Fault Expr
  | .ok (e, place) => if place < ts.length then .error .unexpected else .ok e
  | .error fault => .error fault

theorem parseTokens_eq_whole (h : Descent ts (.expression 0) 0 taken depth r) :
    parseTokens ts = whole ts r := by
  have hreads : expression 0 ts = r.map fun found => (found.1, ts.drop found.2) := h.expression_eq
  rw [parseTokens, hreads]
  obtain fault | ⟨e, place⟩ := r
  · rfl
  · simp only [Except.map, whole]
    split
    · rename_i heq
      cases heq
    · rename_i heq
      obtain ⟨rfl, hrest⟩ : e = _ ∧ ts.drop place = [] := by simpa using heq
      rw [if_neg (Nat.not_lt.mpr (List.drop_eq_nil_iff.mp hrest))]
    · rename_i heq
      obtain ⟨rfl, hrest⟩ : e = _ ∧ ts.drop place = _ := by simpa using heq
      have hlt : place < ts.length := by
        rw [← Nat.not_le, ← List.drop_eq_nil_iff, hrest]
        exact List.cons_ne_nil _ _
      rw [if_pos hlt]

/-- **Reading by calls ends, and in order.**  From every place and with every limit, a call for
an expression ends, in one way.  The operators after an operand are gone through in rounds: each
fails, or takes two tokens at least.  So a whole formula takes each of its tokens once at most,
and has never more expressions open within one another than it has tokens. -/
theorem calls_in_order (ts : List Token) :
    (∀ limit start, ∃ taken depth r, IsOrderly ts limit start taken depth r) ∧
    (∀ limit start e, ∃ taken depth r,
      Descent ts (.operators limit e) start taken depth r ∧ GoesOn ts limit start e r) ∧
    ∃ taken depth r, Descent ts (.expression 0) 0 taken depth r ∧ parseTokens ts = whole ts r ∧
      taken.Nodup ∧ taken.length ≤ ts.length ∧ depth ≤ ts.length := by
  refine ⟨fun limit start => ?_, fun limit start e => ?_, ?_⟩
  · obtain ⟨taken, depth, r, h⟩ := exists_descent ts limit start
    exact ⟨taken, depth, r, h.isOrderly⟩
  · obtain ⟨taken, depth, r, h⟩ := (exists_descent_from ts start).2 limit e
    exact ⟨taken, depth, r, h, h.goes⟩
  · obtain ⟨taken, depth, r, h⟩ := exists_descent ts 0 0
    have horderly := h.isOrderly
    have hlength : taken.length ≤ ts.length := by simpa using horderly.inside (Nat.zero_le _)
    refine ⟨taken, depth, r, h, parseTokens_eq_whole h, ?_, hlength,
      Nat.le_trans horderly.shallow hlength⟩
    rw [horderly.inOrder]
    exact List.nodup_range'

end Orchestrion.Formula

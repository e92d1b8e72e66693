import Orchestrion.Formula.Eval
import Orchestrion.Proofs.Formula.Reading

set_option autoImplicit false

/-!
# Formulas in the place of names

A formula in brackets may stand wherever a name does.  Written into the tokens of
another formula for each occurrence of a name, it is read as a part of its own,
whatever operators stand around it: the grammar has a name and a bracketed sum at
the same level, so a derivation keeps its shape.  And the value is the one that
the other formula has when the name is bound to the value of what was written for
it.
-/

namespace Orchestrion.Formula

/-! ## Replacing a name -/

/-- The tokens that a token becomes when a formula is written for a name. -/
def Token.replace (x : String) (us : List Token) : Token → List Token
  | .word w => if w = x then .openBracket :: us ++ [.closeBracket] else [.word w]
  | t => [t]

/-- Tokens with a formula, in brackets, written for every occurrence of a name. -/
def replaceWord (x : String) (us ts : List Token) : List Token :=
  ts.flatMap (Token.replace x us)

/-- A tree with another one in the place of every occurrence of a name. -/
def Expr.replace (e : Expr) (x : String) (a : Expr) : Expr :=
  match e with
  | .number value => .number value
  | .name ident => if ident = x then a else .name ident
  | .unary op operand => .unary op (operand.replace x a)
  | .binary op lhs rhs => .binary op (lhs.replace x a) (rhs.replace x a)

variable {x : String} {us : List Token} {a : Expr}

@[simp] theorem replaceWord_append (ts vs : List Token) :
    replaceWord x us (ts ++ vs) = replaceWord x us ts ++ replaceWord x us vs :=
  List.flatMap_append

@[simp] theorem replaceWord_cons (t : Token) (ts : List Token) :
    replaceWord x us (t :: ts) = t.replace x us ++ replaceWord x us ts :=
  List.flatMap_cons

@[simp] theorem replaceWord_nil : replaceWord x us [] = [] := rfl

/-! ## The derivation of what is written -/

/-- A token in front of an operand is no name: it stays, and goes on to mean what
it did. -/
theorem Prefixes.replace {t : Token} {f : Expr → Expr} (h : Prefixes t f)
    (hx : x ∉ functionWords.map Prod.fst) :
    t.replace x us = [t] ∧ ∀ e : Expr, (f e).replace x a = f (e.replace x a) := by
  cases h with
  | plus => exact ⟨rfl, fun e => rfl⟩
  | minus => exact ⟨rfl, fun e => rfl⟩
  | @function w op hw =>
    have hne : w ≠ x := by
      rintro rfl
      exact hx (List.mem_map.mpr ⟨(w, op), hw, rfl⟩)
    exact ⟨if_neg hne, fun e => rfl⟩

/-- Every part of a formula stays a part of its level. -/
theorem Derives.replace {l : Level} {ts : List Token} {e : Expr} (h : Derives l ts e)
    (hus : Derives .sum us a) (hx : x ∉ functionWords.map Prod.fst) :
    Derives l (replaceWord x us ts) (e.replace x a) := by
  induction h with
  | ofProduct _ ih => exact .ofProduct ih
  | ofOperand _ ih => exact .ofOperand ih
  | additive hop _ _ ihl ihr =>
    simpa [Token.replace, Expr.replace] using Derives.additive hop ihl ihr
  | multiplicative hop _ _ ihl ihr =>
    simpa [Token.replace, Expr.replace] using Derives.multiplicative hop ihl ihr
  | prefixed hp _ ih =>
    obtain ⟨htoken, htree⟩ : _ ∧ _ := hp.replace hx
    rw [replaceWord_cons, htoken, htree]
    exact .prefixed hp ih
  | number written value => exact .number written value
  | @name w hw =>
    by_cases hwx : w = x
    · simpa [Token.replace, Expr.replace, hwx] using Derives.group hus
    · simpa [Token.replace, Expr.replace, hwx] using Derives.name hw
  | group _ ih => simpa [Token.replace] using Derives.group ih

/-- A name occurs in the tree when its word occurs among the tokens. -/
theorem Derives.mentions_iff {l : Level} {ts : List Token} {e : Expr} (h : Derives l ts e)
    (hx : x ∉ functionWords.map Prod.fst) : e.mentions x = true ↔ .word x ∈ ts := by
  induction h with
  | ofProduct _ ih => exact ih
  | ofOperand _ ih => exact ih
  | additive _ _ _ ihl ihr => simp [Expr.mentions, ihl, ihr]
  | multiplicative _ _ _ ihl ihr => simp [Expr.mentions, ihl, ihr]
  | prefixed hp _ ih =>
    cases hp with
    | plus => simpa using ih
    | minus => simpa [Expr.mentions] using ih
    | @function w op hw =>
      have hne : x ≠ w := by
        rintro rfl
        exact hx (List.mem_map.mpr ⟨(x, op), hw, rfl⟩)
      simpa [Expr.mentions, hne] using ih
  | number written value => simp [Expr.mentions]
  | @name w _ =>
    have hcomm : w = x ↔ x = w := eq_comm
    simpa [Expr.mentions] using hcomm
  | group _ ih => simpa using ih

/-! ## The value of what is written -/

variable {α : Type} [Scalar α]

/-- A tree in the place of a name counts like its value under that name. -/
theorem Expr.eval_replace (e : Expr) {ctx : Context α} {v : α} (ha : a.eval ctx = .ok v) :
    (e.replace x a).eval ctx = e.eval ((x, v) :: ctx) := by
  induction e with
  | number value => rfl
  | name ident =>
    by_cases hident : ident = x
    · simp [Expr.replace, Expr.eval, Context.get?, hident, ha]
    · have hbeq : (ident == x) = false := beq_false_of_ne hident
      simp [Expr.replace, Expr.eval, Context.get?, List.lookup_cons, hident, hbeq]
  | unary op operand ih => simp only [Expr.replace, Expr.eval, ih]
  | binary op lhs rhs ihl ihr => simp only [Expr.replace, Expr.eval, ihl, ihr]

/-- A tree that has no value leaves none to a formula in which it stands. -/
theorem Expr.eval_replace_of_error (e : Expr) {ctx : Context α} {fault : Fault}
    (ha : a.eval ctx = .error fault) (he : e.mentions x = true) :
    ∃ fault, (e.replace x a).eval ctx = .error fault := by
  induction e with
  | number value => cases he
  | name ident =>
    have hident : ident = x := by simpa [Expr.mentions] using he
    exact ⟨fault, by simpa [Expr.replace, hident] using ha⟩
  | unary op operand ih =>
    obtain ⟨fault, h⟩ := ih he
    exact ⟨fault, by simp only [Expr.replace, Expr.eval, h]⟩
  | binary op lhs rhs ihl ihr =>
    -- The left operand comes first: a fault of its own hides one of the right.
    cases hl : (lhs.replace x a).eval ctx with
    | error fault => exact ⟨fault, by simp only [Expr.replace, Expr.eval, hl]⟩
    | ok value =>
      have hr : rhs.mentions x = true := by
        rcases Bool.or_eq_true_iff.mp he with hleft | hright
        · obtain ⟨_, h⟩ := ihl hleft
          rw [hl] at h
          cases h
        · exact hright
      obtain ⟨fault, h⟩ := ihr hr
      exact ⟨fault, by simp only [Expr.replace, Expr.eval, hl, h]⟩

/-- **A formula in brackets stands for its value.**  Written for every occurrence
of a name among the tokens of another formula, it gives a formula again, whose
tree has the one tree in the places of that name in the other.  In a context in
which what was written has a value, the result has the value or the fault that
the other formula has once the name is bound to that value; in a context in which
it has none and the name occurs, the result has none either. -/
theorem parseTokens_replaceWord {ts us : List Token} {e a : Expr} {x : String}
    (hts : parseTokens ts = .ok e) (hus : parseTokens us = .ok a)
    (hx : x ∉ ["abs", "sgn", "sin", "cos"]) :
    parseTokens (replaceWord x us ts) = .ok (e.replace x a) ∧
    (∀ (ctx : Context α) (v : α), a.eval ctx = .ok v →
      (e.replace x a).eval ctx = e.eval ((x, v) :: ctx)) ∧
    (∀ (ctx : Context α) (fault : Fault), a.eval ctx = .error fault → .word x ∈ ts →
      ∃ fault, (e.replace x a).eval ctx = .error fault) := by
  have hd := derives_of_parseTokens hts
  refine ⟨parseTokens_of_derives (hd.replace (derives_of_parseTokens hus) hx), ?_, ?_⟩
  · intro ctx v ha
    exact Expr.eval_replace e ha
  · intro ctx fault ha hmem
    exact Expr.eval_replace_of_error e ha ((hd.mentions_iff hx).mpr hmem)

/-- The sum `p + q` written for the name `y` in the product `x * y`, in a context
that has both names and in one that has neither. -/
theorem parseTokens_replaceWord_sum :
    parseTokens [.word "x", .operator .mul, .openBracket, .word "p", .operator .add, .word "q",
        .closeBracket] =
      .ok (.binary .mul (.name "x") (.binary .add (.name "p") (.name "q"))) ∧
    Expr.eval [("x", 3.0), ("p", 1.0), ("q", (2.0 : Float))]
        (.binary .mul (.name "x") (.binary .add (.name "p") (.name "q"))) =
      Expr.eval [("y", 1.0 + 2.0), ("x", 3.0), ("p", 1.0), ("q", 2.0)]
        (.binary .mul (.name "x") (.name "y")) ∧
    ∃ fault, Expr.eval [("x", (3.0 : Float))]
      (.binary .mul (.name "x") (.binary .add (.name "p") (.name "q"))) = .error fault := by
  have hts : parseTokens [.word "x", .operator .mul, .word "y"] =
    .ok (.binary .mul (.name "x") (.name "y")) := rfl
  have hus : parseTokens [.word "p", .operator .add, .word "q"] =
    .ok (.binary .add (.name "p") (.name "q")) := rfl
  obtain ⟨hparse, hvalue, hfault⟩ :=
    parseTokens_replaceWord (α := Float) (x := "y") hts hus (by decide)
  exact ⟨hparse, hvalue _ _ rfl, hfault _ .incomplete rfl (by decide)⟩

end Orchestrion.Formula

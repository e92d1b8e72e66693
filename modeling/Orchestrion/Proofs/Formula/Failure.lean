import Orchestrion.Formula.Eval
import Orchestrion.Proofs.Binary64.Special

set_option autoImplicit false

/-!
# Where a formula fails

A formula is valued from its leaves to its root, operands from left to right.  Each of
its nodes stands for a part of it, and in a context of doubles a node fails of itself
when its operands have values and it can make nothing of them.  Here is a list of all
such ways to fail; the first node that fails in one of them is the fault of the whole
formula, and a formula none of whose nodes fails has a value.
-/

namespace Orchestrion.Formula

/-! ## Operands that are refused -/

/-- The operand of an operator that makes nothing of it. -/
inductive UnaryOp.Refuses : UnaryOp → Float → Prop
  | sin {x : Float} : (x * Scalar.pi).isInf = true → Refuses .sin x
  | cos {x : Float} : (x * Scalar.pi).isInf = true → Refuses .cos x

/-- The operands of an operator that makes nothing of them. -/
inductive BinaryOp.Refuses : BinaryOp → Float → Float → Prop
  | divisor {op : BinaryOp} {a b : Float} : op = .div ∨ op = .mod → b = 0.0 ∨ b = -0.0 →
      Refuses op a b
  | dividend {a b : Float} : a.isInf = true → b.isNaN = false → Refuses .mod a b

theorem bounded_cases (f : Float → Float) (x : Float) :
    (x.isInf = true ∧ orUnexpected (Binary64.bounded f x) = .error .unexpected) ∨
      (¬x.isInf = true ∧ ∃ y, orUnexpected (Binary64.bounded f x) = .ok y) := by
  unfold Binary64.bounded
  by_cases h : x.isInf = true
  · exact .inl ⟨h, by rw [if_pos h]; rfl⟩
  · exact .inr ⟨h, f x, by rw [if_neg h]; rfl⟩

/-- An operator of one operand either refuses it, and fails, or has a value. -/
theorem UnaryOp.apply_cases (op : UnaryOp) (x : Float) :
    (op.Refuses x ∧ op.apply x = .error .unexpected) ∨
      (¬op.Refuses x ∧ ∃ y, op.apply x = .ok y) := by
  cases op with
  | negate => exact .inr ⟨nofun, _, rfl⟩
  | abs => exact .inr ⟨nofun, _, rfl⟩
  | sgn => exact .inr ⟨nofun, _, rfl⟩
  | sin =>
    rcases bounded_cases Float.sin (x * Scalar.pi) with ⟨hinf, hfault⟩ | ⟨hfinite, hvalue⟩
    · exact .inl ⟨.sin hinf, hfault⟩
    · refine .inr ⟨fun h => ?_, hvalue⟩
      cases h with
      | sin hinf => exact hfinite hinf
  | cos =>
    rcases bounded_cases Float.cos (x * Scalar.pi) with ⟨hinf, hfault⟩ | ⟨hfinite, hvalue⟩
    · exact .inl ⟨.cos hinf, hfault⟩
    · refine .inr ⟨fun h => ?_, hvalue⟩
      cases h with
      | cos hinf => exact hfinite hinf

/-- A remainder is refused for an infinity by anything that is a number, and for nothing
else but a zero divisor. -/
theorem remainder_cases {a b : Float} (hb : ¬(b = 0.0 ∨ b = -0.0)) :
    ((a.isInf = true ∧ b.isNaN = false) ∧ Scalar.remainder a b = .error .domain) ∨
      (¬(a.isInf = true ∧ b.isNaN = false) ∧ ∃ c, Scalar.remainder a b = .ok c) := by
  have hremainder : Scalar.remainder a b =
      (Binary64.remainder? (Binary64.ofFloat a) (Binary64.ofFloat b)).elim (.error .domain)
        fun r => .ok r.toFloat := by
    simp only [Scalar.remainder]
    cases Binary64.remainder? (Binary64.ofFloat a) (Binary64.ofFloat b) <;> rfl
  have hnan : b.isNaN = false ↔ Binary64.ofFloat b ≠ .nan := by
    rw [← Bool.not_eq_true, Binary64.isNaN_iff]
  rw [Binary64.isInf_iff, hnan, hremainder]
  cases ha : Binary64.ofFloat a with
  | nan => exact .inr ⟨by simp, _, rfl⟩
  | infinite negative =>
    cases hb : Binary64.ofFloat b with
    | nan => exact .inr ⟨by simp, _, rfl⟩
    | infinite negative' => exact .inl ⟨by simp, rfl⟩
    | finite negative' m' e' => exact .inl ⟨by simp, rfl⟩
  | finite negative m e =>
    refine .inr ⟨by simp, ?_⟩
    cases hb' : Binary64.ofFloat b with
    | nan => exact ⟨_, rfl⟩
    | infinite negative' => exact ⟨_, rfl⟩
    | finite negative' m' e' =>
      have hm' : m' ≠ 0 := by
        rintro rfl
        exact hb (Binary64.eq_zero_of_ofFloat hb')
      simp only [Binary64.remainder?, if_neg hm']
      exact ⟨_, rfl⟩

/-- An operator of two operands either refuses them, and fails, or has a value. -/
theorem BinaryOp.apply_cases (op : BinaryOp) (a b : Float) :
    (op.Refuses a b ∧ op.apply a b = .error .unexpected) ∨
      (¬op.Refuses a b ∧ ∃ c, op.apply a b = .ok c) := by
  have hzero : Scalar.eq b 0.0 = true ↔ b = 0.0 ∨ b = -0.0 := Binary64.beq_zero_iff b
  have hnone {op : BinaryOp} (hdiv : op ≠ .div) (hmod : op ≠ .mod) : ¬op.Refuses a b := by
    intro h
    cases h with
    | divisor hop _ => exact hop.elim hdiv hmod
    | dividend => exact hmod rfl
  cases op with
  | add => exact .inr ⟨hnone nofun nofun, _, rfl⟩
  | sub => exact .inr ⟨hnone nofun nofun, _, rfl⟩
  | mul => exact .inr ⟨hnone nofun nofun, _, rfl⟩
  | div =>
    simp only [BinaryOp.apply, Scalar.quotient]
    by_cases hb : b = 0.0 ∨ b = -0.0
    · rw [if_pos (hzero.mpr hb)]
      exact .inl ⟨.divisor (.inl rfl) hb, rfl⟩
    · rw [if_neg (mt hzero.mp hb), if_neg (mt hzero.mp hb)]
      refine .inr ⟨fun h => ?_, _, rfl⟩
      cases h with
      | divisor _ hb' => exact hb hb'
  | mod =>
    simp only [BinaryOp.apply]
    by_cases hb : b = 0.0 ∨ b = -0.0
    · rw [if_pos (hzero.mpr hb)]
      exact .inl ⟨.divisor (.inr rfl) hb, rfl⟩
    · rw [if_neg (mt hzero.mp hb)]
      rcases remainder_cases hb with ⟨⟨hinf, hnumber⟩, hfault⟩ | ⟨hno, c, hvalue⟩
      · exact .inl ⟨.dividend hinf hnumber, by rw [hfault]; rfl⟩
      · refine .inr ⟨fun h => ?_, c, by rw [hvalue]; rfl⟩
        cases h with
        | divisor _ hb' => exact hb hb'
        | dividend hinf hnumber => exact hno ⟨hinf, hnumber⟩

/-! ## Nodes -/

namespace Expr

/-- The nodes of a formula, each as the part of the formula that it stands for: operands
from left to right, and each operator after its operands. -/
def postorder : Expr → List Expr
  | .number value => [.number value]
  | .name ident => [.name ident]
  | .unary op operand => operand.postorder ++ [.unary op operand]
  | .binary op lhs rhs => lhs.postorder ++ rhs.postorder ++ [.binary op lhs rhs]

/-- A node that fails of itself, and its fault: a name that the context does not have, or
an operator that refuses the values of its operands. -/
inductive Fails (ctx : Context Float) : Expr → Fault → Prop
  | unbound {ident : String} : ctx.get? ident = none → Fails ctx (.name ident) .incomplete
  | unary {op : UnaryOp} {operand : Expr} {x : Float} : operand.eval ctx = .ok x →
      op.Refuses x → Fails ctx (.unary op operand) .unexpected
  | binary {op : BinaryOp} {lhs rhs : Expr} {a b : Float} : lhs.eval ctx = .ok a →
      rhs.eval ctx = .ok b → op.Refuses a b → Fails ctx (.binary op lhs rhs) .unexpected

/-- The fault of the first node that fails. -/
inductive FailsFirst (ctx : Context Float) : List Expr → Fault → Prop
  | here {node : Expr} {rest : List Expr} {fault : Fault} : node.Fails ctx fault →
      FailsFirst ctx (node :: rest) fault
  | later {node : Expr} {rest : List Expr} {fault : Fault} :
      (∀ fault, ¬node.Fails ctx fault) → FailsFirst ctx rest fault →
      FailsFirst ctx (node :: rest) fault

variable {ctx : Context Float} {nodes more : List Expr} {fault fault' : Fault}

theorem Fails.unique {node : Expr} (h : node.Fails ctx fault) (h' : node.Fails ctx fault') :
    fault = fault' := by
  cases h <;> cases h' <;> rfl

theorem FailsFirst.unique (h : FailsFirst ctx nodes fault) (h' : FailsFirst ctx nodes fault') :
    fault = fault' := by
  induction h with
  | here hnode =>
    cases h' with
    | here hnode' => exact hnode.unique hnode'
    | later hnone _ => exact absurd hnode (hnone _)
  | later hnone _ ih =>
    cases h' with
    | here hnode' => exact absurd hnode' (hnone _)
    | later _ hrest => exact ih hrest

theorem FailsFirst.exists_mem (h : FailsFirst ctx nodes fault) :
    ∃ node ∈ nodes, node.Fails ctx fault := by
  induction h with
  | here hnode => exact ⟨_, List.mem_cons_self, hnode⟩
  | later _ _ ih =>
    obtain ⟨node, hmem, hnode⟩ := ih
    exact ⟨node, List.mem_cons_of_mem _ hmem, hnode⟩

theorem FailsFirst.append (h : FailsFirst ctx nodes fault) (more : List Expr) :
    FailsFirst ctx (nodes ++ more) fault := by
  induction h with
  | here hnode => exact .here hnode
  | later hnone _ ih => exact .later hnone ih

theorem FailsFirst.prepend (hnone : ∀ node ∈ nodes, ∀ fault, ¬node.Fails ctx fault)
    (h : FailsFirst ctx more fault) : FailsFirst ctx (nodes ++ more) fault := by
  induction nodes with
  | nil => exact h
  | cons node rest ih =>
    obtain ⟨hnode, hrest⟩ := List.forall_mem_cons.mp hnone
    exact .later hnode (ih hrest)

/-! ## Formulas -/

/-- A formula has a value and no node that fails, or it has the fault of the first one. -/
theorem eval_cases (e : Expr) (ctx : Context Float) :
    ((∃ v, e.eval ctx = .ok v) ∧ ∀ node ∈ e.postorder, ∀ fault, ¬node.Fails ctx fault) ∨
      ∃ fault, e.eval ctx = .error fault ∧ FailsFirst ctx e.postorder fault := by
  induction e with
  | number value =>
    refine .inl ⟨⟨_, rfl⟩, fun node hnode fault h => ?_⟩
    rw [List.mem_singleton.mp hnode] at h
    cases h
  | name ident =>
    cases hget : ctx.get? ident with
    | none => exact .inr ⟨.incomplete, by simp only [eval, hget], .here (.unbound hget)⟩
    | some x =>
      refine .inl ⟨⟨x, by simp only [eval, hget]⟩, fun node hnode fault h => ?_⟩
      rw [List.mem_singleton.mp hnode] at h
      cases h with
      | unbound hnone => rw [hget] at hnone; cases hnone
  | unary op operand ih =>
    simp only [eval, postorder]
    rcases ih with ⟨⟨x, hx⟩, hnone⟩ | ⟨fault, hfault, hfirst⟩
    · rw [hx]
      rcases op.apply_cases x with ⟨hrefuses, hfault⟩ | ⟨haccepts, y, hy⟩
      · exact .inr ⟨_, hfault, .prepend hnone (.here (.unary hx hrefuses))⟩
      · refine .inl ⟨⟨y, hy⟩, List.forall_mem_append.mpr ⟨hnone, fun node hnode fault h => ?_⟩⟩
        rw [List.mem_singleton.mp hnode] at h
        cases h with
        | unary hx' hrefuses =>
          rw [hx] at hx'
          cases hx'
          exact haccepts hrefuses
    · rw [hfault]
      exact .inr ⟨fault, rfl, hfirst.append _⟩
  | binary op lhs rhs ihl ihr =>
    simp only [eval, postorder]
    rcases ihl with ⟨⟨a, ha⟩, hnonel⟩ | ⟨fault, hfault, hfirst⟩
    · rw [ha]
      rcases ihr with ⟨⟨b, hb⟩, hnoner⟩ | ⟨fault, hfault, hfirst⟩
      · have hnone := List.forall_mem_append.mpr ⟨hnonel, hnoner⟩
        rw [hb]
        rcases op.apply_cases a b with ⟨hrefuses, hfault⟩ | ⟨haccepts, y, hy⟩
        · exact .inr ⟨_, hfault, .prepend hnone (.here (.binary ha hb hrefuses))⟩
        · refine .inl ⟨⟨y, hy⟩, List.forall_mem_append.mpr ⟨hnone, fun node hnode fault h => ?_⟩⟩
          rw [List.mem_singleton.mp hnode] at h
          cases h with
          | binary ha' hb' hrefuses =>
            rw [ha] at ha'
            rw [hb] at hb'
            cases ha'
            cases hb'
            exact haccepts hrefuses
      · rw [hfault]
        exact .inr ⟨fault, rfl, (FailsFirst.prepend hnonel hfirst).append _⟩
    · rw [hfault, List.append_assoc]
      exact .inr ⟨fault, rfl, hfirst.append _⟩

end Expr

/-! ## What is no number -/

/-- What is no number is refused by no operator in front of it. -/
theorem UnaryOp.not_refuses_nan {op : UnaryOp} {x : Float} (h : x.isNaN = true) :
    ¬op.Refuses x := by
  have hfinite : (x * Scalar.pi).isInf = false := Binary64.isInf_of_isNaN (Binary64.isNaN_mul h _)
  intro hrefuses
  cases hrefuses with
  | sin hinf => rw [hfinite] at hinf; cases hinf
  | cos hinf => rw [hfinite] at hinf; cases hinf

/-- Nor is it refused at the right of an operator. -/
theorem BinaryOp.not_refuses_nan {op : BinaryOp} {a b : Float} (h : b.isNaN = true) :
    ¬op.Refuses a b := by
  intro hrefuses
  cases hrefuses with
  | divisor _ hzero =>
    rcases hzero with rfl | rfl
    · exact absurd h (by decide +kernel)
    · exact absurd h (by decide +kernel)
  | dividend _ hnumber => rw [h] at hnumber; cases hnumber

/-- At the left of an operator it is refused only for an operand at the right that the
operator refuses at the right of anything. -/
theorem BinaryOp.refuses_of_nan {op : BinaryOp} {a b : Float} (h : a.isNaN = true)
    (hrefuses : op.Refuses a b) (a' : Float) : op.Refuses a' b := by
  cases hrefuses with
  | divisor hop hzero => exact .divisor hop hzero
  | dividend hinf _ => rw [Binary64.isInf_of_isNaN h] at hinf; cases hinf

/-- **The first node that fails is the fault of a formula.**  In a context of doubles a
formula has a value exactly when none of its nodes fails, and a fault exactly when that
is the fault of the first node that fails, operands before their operator and from left
to right.  A node fails when it is a name that the context does not have, a quotient or
a remainder with a zero at its right, a remainder of an infinity by a number, or a sine
or a cosine whose operand, times half a turn, is infinite.  What is no number is never
the cause. -/
theorem eval_fails_first (e : Expr) (ctx : Context Float) :
    ((∃ v, e.eval ctx = .ok v) ↔ ∀ node ∈ e.postorder, ∀ fault, ¬node.Fails ctx fault) ∧
    (∀ fault, e.eval ctx = .error fault ↔ Expr.FailsFirst ctx e.postorder fault) ∧
    (∀ (op : UnaryOp) (x : Float), x.isNaN = true → ¬op.Refuses x) ∧
    (∀ (op : BinaryOp) (a b : Float), b.isNaN = true → ¬op.Refuses a b) ∧
    ∀ (op : BinaryOp) (a b : Float), a.isNaN = true → op.Refuses a b → ∀ a', op.Refuses a' b := by
  refine ⟨?_, fun fault => ?_, fun op x h => UnaryOp.not_refuses_nan h,
    fun op a b h => BinaryOp.not_refuses_nan h, fun op a b h => BinaryOp.refuses_of_nan h⟩
  · rcases e.eval_cases ctx with ⟨hvalue, hnone⟩ | ⟨fault, hfault, hfirst⟩
    · exact ⟨fun _ => hnone, fun _ => hvalue⟩
    · obtain ⟨node, hmem, hnode⟩ := hfirst.exists_mem
      constructor
      · rintro ⟨v, hv⟩
        rw [hfault] at hv
        cases hv
      · exact fun hnone => absurd hnode (hnone node hmem fault)
  · rcases e.eval_cases ctx with ⟨⟨v, hv⟩, hnone⟩ | ⟨fault', hfault, hfirst⟩
    · rw [hv]
      refine ⟨nofun, fun hfirst => ?_⟩
      obtain ⟨node, hmem, hnode⟩ := hfirst.exists_mem
      exact absurd hnode (hnone node hmem fault)
    · rw [hfault]
      constructor
      · rintro ⟨rfl⟩
        exact hfirst
      · intro h
        rw [hfirst.unique h]

end Orchestrion.Formula

import Mathlib.Data.List.Chain
import Orchestrion.Formula.Parser

set_option autoImplicit false

/-!
# The grammar of formulas

What a formula is, as a relation between tokens and trees that mentions no
reader.  The grammar has three levels and recurs on the left:

    sum     ::= sum (+ | -) product | product
    product ::= product (* | / | %) operand | operand
    operand ::= + operand | - operand | function operand
              | numeral | name | ( sum )

A plus sign in front of an operand and brackets around a sum leave no trace in
the tree.  That at most one tree is derived from a list of tokens is no part of
the definition; it is proved where the reader is compared with the grammar.
-/

namespace Orchestrion.Formula

/-! ## The relation -/

/-- The levels of the grammar, the loosest first. -/
inductive Level where
  | sum
  | product
  | operand
  deriving DecidableEq, Repr

/-- The words that are operators in front of an operand. -/
def functionWords : List (String × UnaryOp) :=
  [("abs", .abs), ("sgn", .sgn), ("sin", .sin), ("cos", .cos)]

/-- A token that may stand in front of an operand, and what it makes of the
operand's tree. -/
inductive Prefixes : Token → (Expr → Expr) → Prop
  | plus : Prefixes (.operator .add) id
  | minus : Prefixes (.operator .sub) (.unary .negate)
  | function {w : String} {op : UnaryOp} :
      (w, op) ∈ functionWords → Prefixes (.word w) (.unary op)

/-- The tokens of a part of a formula, at a level, and the tree of that part. -/
inductive Derives : Level → List Token → Expr → Prop
  | ofProduct {ts : List Token} {e : Expr} : Derives .product ts e → Derives .sum ts e
  | additive {op : BinaryOp} {ls rs : List Token} {a b : Expr} :
      op = .add ∨ op = .sub → Derives .sum ls a → Derives .product rs b →
      Derives .sum (ls ++ .operator op :: rs) (.binary op a b)
  | ofOperand {ts : List Token} {e : Expr} : Derives .operand ts e → Derives .product ts e
  | multiplicative {op : BinaryOp} {ls rs : List Token} {a b : Expr} :
      op = .mul ∨ op = .div ∨ op = .mod → Derives .product ls a → Derives .operand rs b →
      Derives .product (ls ++ .operator op :: rs) (.binary op a b)
  | prefixed {t : Token} {f : Expr → Expr} {ts : List Token} {e : Expr} :
      Prefixes t f → Derives .operand ts e → Derives .operand (t :: ts) (f e)
  | number (written : String) (value : Decimal) :
      Derives .operand [.number written value] (.number value)
  | name {w : String} : w ∉ functionWords.map Prod.fst → Derives .operand [.word w] (.name w)
  | group {ts : List Token} {e : Expr} :
      Derives .sum ts e → Derives .operand (.openBracket :: ts ++ [.closeBracket]) e

/-! ## Levels -/

/-- How tightly a part of some level holds together.  An operator takes a part
away from what stands to the left of it only by binding tighter than that;
nothing takes an operand apart. -/
def Level.power : Level → Nat
  | .sum => 50
  | .product => 60
  | .operand => unaryPower + 1

/-- A part of a tighter level is one of every looser level. -/
theorem Derives.loosen {l l' : Level} {ts : List Token} {e : Expr} (h : Derives l ts e)
    (hle : l'.power ≤ l.power) : Derives l' ts e := by
  cases l' with
  | sum =>
    cases l with
    | sum => exact h
    | product => exact .ofProduct h
    | operand => exact .ofProduct (.ofOperand h)
  | product =>
    cases l with
    | sum => simp [Level.power] at hle
    | product => exact h
    | operand => exact .ofOperand h
  | operand =>
    cases l with
    | sum => simp [Level.power, unaryPower] at hle
    | product => simp [Level.power, unaryPower] at hle
    | operand => exact h

/-- Every part of a formula is a formula. -/
theorem Derives.toSum {l : Level} {ts : List Token} {e : Expr} (h : Derives l ts e) :
    Derives .sum ts e := by
  refine h.loosen ?_
  cases l <;> decide

/-! ## Tokens of a formula -/

/-- Whether a token can be the last one of an operand. -/
def Token.endsOperand : Token → Bool
  | .word w => !(functionWords.map Prod.fst).contains w
  | .number _ _ => true
  | .closeBracket => true
  | _ => false

/-- A token in front of an operand does not end one. -/
theorem Prefixes.endsOperand_eq {t : Token} {f : Expr → Expr} (h : Prefixes t f) :
    t.endsOperand = false := by
  cases h with
  | plus => rfl
  | minus => rfl
  | @function w op hw =>
    have hmem : w ∈ functionWords.map Prod.fst := List.mem_map.mpr ⟨(w, op), hw, rfl⟩
    simp [Token.endsOperand, hmem]

/-- Every part of a formula ends in a token that ends an operand. -/
theorem Derives.exists_last {l : Level} {ts : List Token} {e : Expr} (h : Derives l ts e) :
    ∃ init t, ts = init ++ [t] ∧ t.endsOperand = true := by
  induction h with
  | ofProduct _ ih => exact ih
  | ofOperand _ ih => exact ih
  | @additive op ls rs a b _ _ _ _ ih =>
    obtain ⟨init, t, rfl, ht⟩ := ih
    exact ⟨ls ++ .operator op :: init, t, by simp, ht⟩
  | @multiplicative op ls rs a b _ _ _ _ ih =>
    obtain ⟨init, t, rfl, ht⟩ := ih
    exact ⟨ls ++ .operator op :: init, t, by simp, ht⟩
  | @prefixed p f ts e _ _ ih =>
    obtain ⟨init, t, rfl, ht⟩ := ih
    exact ⟨p :: init, t, rfl, ht⟩
  | number written value => exact ⟨[], _, rfl, rfl⟩
  | name hw => exact ⟨[], _, rfl, by simpa [Token.endsOperand] using hw⟩
  | group _ _ => exact ⟨_, .closeBracket, rfl, rfl⟩

/-- No token of a formula is unknown. -/
theorem Derives.ne_unknown {l : Level} {ts : List Token} {e : Expr} (h : Derives l ts e) :
    ∀ w : String, .unknown w ∉ ts := by
  intro w
  induction h with
  | ofProduct _ ih => exact ih
  | ofOperand _ ih => exact ih
  | additive _ _ _ ihl ihr => simp [ihl, ihr]
  | multiplicative _ _ _ ihl ihr => simp [ihl, ihr]
  | prefixed hp _ ih => cases hp <;> simp [ih]
  | number written value => simp
  | name _ => simp
  | group _ ih => simp [ih]

/-- No token of a formula that ends an operand is followed by an opening
bracket. -/
theorem Derives.isChain {l : Level} {ts : List Token} {e : Expr} (h : Derives l ts e) :
    ts.IsChain fun t u => t.endsOperand = true → u ≠ .openBracket := by
  induction h with
  | ofProduct _ ih => exact ih
  | ofOperand _ ih => exact ih
  | additive _ _ _ ihl ihr =>
    refine List.isChain_append.mpr ⟨ihl, ?_, by simp⟩
    exact List.isChain_cons.mpr ⟨by simp [Token.endsOperand], ihr⟩
  | multiplicative _ _ _ ihl ihr =>
    refine List.isChain_append.mpr ⟨ihl, ?_, by simp⟩
    exact List.isChain_cons.mpr ⟨by simp [Token.endsOperand], ihr⟩
  | prefixed hp _ ih =>
    exact List.isChain_cons.mpr ⟨by simp [hp.endsOperand_eq], ih⟩
  | number written value => exact .singleton _
  | name _ => exact .singleton _
  | group _ ih =>
    refine List.isChain_append.mpr ⟨?_, .singleton _, by simp⟩
    exact List.isChain_cons.mpr ⟨by simp [Token.endsOperand], ih⟩

/-! ## Chains -/

/-- An operator and the part at its right: its tokens and its tree. -/
structure Link where
  op : BinaryOp
  tokens : List Token
  tree : Expr

/-- The tokens of some links, one after the other. -/
def Link.tokensOf (links : List Link) : List Token :=
  links.flatMap fun x => .operator x.op :: x.tokens

/-- Links hung to a tree from left to right: each takes all that stands before
it as its left operand. -/
def Link.hang (a : Expr) (links : List Link) : Expr :=
  links.foldl (fun a x => .binary x.op a x.tree) a

/-- A sum goes on with products behind plus and minus signs. -/
theorem Derives.sum_append_links {ts : List Token} {a : Expr} {links : List Link}
    (h : Derives .sum ts a)
    (hl : ∀ x ∈ links, (x.op = .add ∨ x.op = .sub) ∧ Derives .product x.tokens x.tree) :
    Derives .sum (ts ++ Link.tokensOf links) (Link.hang a links) := by
  induction links generalizing ts a with
  | nil => simpa [Link.tokensOf, Link.hang] using h
  | cons x rest ih =>
    obtain ⟨hop, hx⟩ := hl x (by simp)
    have hnext := ih (.additive hop h hx) fun y hy => hl y (by simp [hy])
    simpa [Link.tokensOf, Link.hang] using hnext

/-- A product goes on with operands behind signs of multiplication and
division. -/
theorem Derives.product_append_links {ts : List Token} {a : Expr} {links : List Link}
    (h : Derives .product ts a)
    (hl : ∀ x ∈ links, (x.op = .mul ∨ x.op = .div ∨ x.op = .mod) ∧
      Derives .operand x.tokens x.tree) :
    Derives .product (ts ++ Link.tokensOf links) (Link.hang a links) := by
  induction links generalizing ts a with
  | nil => simpa [Link.tokensOf, Link.hang] using h
  | cons x rest ih =>
    obtain ⟨hop, hx⟩ := hl x (by simp)
    have hnext := ih (.multiplicative hop h hx) fun y hy => hl y (by simp [hy])
    simpa [Link.tokensOf, Link.hang] using hnext

end Orchestrion.Formula

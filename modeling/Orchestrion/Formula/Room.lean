import Orchestrion.Formula.Parser

set_option autoImplicit false

/-!
# Reading in a limited room

An expression within another one is read by a call, and no more calls may be open at once
than there is room for.  The calls that are open are those of the frames: each frame has
the call of its own expression and those that lead to it from the expression around it.
When there is no room for a call, nothing is said about the tokens.

Scope: the room is what is left for the calls within the outermost expression, and only
calls that stay open from one token to the next are counted.  A few more are made around
each token and end before the next one; what they need is not part of the room.

* `parseTokensWithin room` reads tokens and `parseWithin room` a text, as `parseTokens`
  and `parse` do where there is always room.
-/

namespace Orchestrion.Formula

/-- How many calls are open for a frame.  A sign or a word in front of an operand and a
bracket are met by the call of an operand, and an operator behind one by a call of its
own; a plus sign and an operator of two operands go on to the expression from there, the
others by one call more. -/
def Frame.calls : Frame → Nat
  | .plus | .binary _ _ => 2
  | .unary _ | .group => 3

/-- How many calls are open for some frames. -/
def callsOf : List Frame → Nat
  | [] => 0
  | frame :: stack => frame.calls + callsOf stack

/-- How many calls are open in a state. -/
def State.calls : State → Nat
  | .before stack | .after _ stack => callsOf stack

/-- How many calls end at a token behind an operand. -/
def endedBy (t : Token) : List Frame → Nat
  | [] => 0
  | frame :: stack =>
    if frame.power < t.power then 0
    else frame.calls + if frame = .group then 0 else endedBy t stack

/-- How many calls end at a token. -/
def State.ended (t : Token) : State → Nat
  | .before _ => 0
  | .after _ stack => endedBy t stack

/-- How many calls have just begun. -/
def State.begun : State → Nat
  | .before (frame :: _) => frame.calls
  | _ => 0

/-- Why tokens are not read. -/
inductive ReadFault where
  /-- something is wrong with the tokens -/
  | fault (fault : Fault)
  /-- there is no room for a call -/
  | noRoom
  deriving DecidableEq, Repr

/-- Reads from a state on, in which as many calls are open, as long as there is room. -/
def runWithin (room calls : Nat) (σ : State) (ts : List Token) :
    Except ReadFault (Expr × List Token) :=
  if room < calls then .error .noRoom
  else
    match ts with
    | [] => (run 0 σ []).mapError .fault
    | t :: ts =>
      match step 0 σ t with
      | .next σ' => runWithin room (calls - σ.ended t + σ'.begun) σ' ts
      | .done e => .ok (e, t :: ts)
      | .fail fault => .error (.fault fault)

/-- The tree of a list of tokens; no token may be left. -/
def parseTokensWithin (room : Nat) (ts : List Token) : Except ReadFault Expr :=
  match runWithin room 0 (.before []) ts with
  | .error fault => .error fault
  | .ok (e, []) => .ok e
  | .ok (_, _ :: _) => .error (.fault .unexpected)

/-- The tree of a text. -/
def parseWithin (room : Nat) (s : String) : Except ReadFault Expr :=
  parseTokensWithin room (tokenize s)

end Orchestrion.Formula

import Orchestrion.Formula.Parser
import Orchestrion.Formula.Eval
import Orchestrion.Document.Value

set_option autoImplicit false

/-!
# Waveforms

A waveform is a formula that is valued at every sample.  What has no value is
silence.  As a carrier it gives the value itself; as a modulator it maps the
range from -1 to 1 onto the range from 0 to 1.
-/

namespace Orchestrion

/-- A named formula. -/
structure Waveform where
  name : Document.Atom
  /-- the text of the formula -/
  equation : String
  formula : Formula.Expr

namespace Waveform

/-- The waveform of a formula's text. -/
def ofEquation (name : Document.Atom) (equation : String) : Except Formula.Fault Waveform :=
  match Formula.parse equation with
  | .ok formula => .ok ⟨name, equation, formula⟩
  | .error fault => .error fault

variable {α : Type} [Scalar α]

/-- The value as a carrier. -/
def carrier (w : Waveform) (ctx : Context α) : Option α :=
  match w.formula.eval ctx with
  | .ok x => some x
  | .error _ => none

/-- The value as a modulator. -/
def modulation (w : Waveform) (ctx : Context α) : Option α :=
  (w.carrier ctx).map fun x => (x + 1.0) / 2.0

end Waveform

end Orchestrion

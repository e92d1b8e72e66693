import Orchestrion.Easing.Curves

set_option autoImplicit false

/-!
# The catalog of easing curves

A curve is named by its family and its direction; a straight line may be named
without a direction.  `find?` gives the curve of a name, `names` all names in
alphabetical order.
-/

namespace Orchestrion

namespace Easing

/-- A family of curves. -/
inductive Family where
  | back
  | bounce
  | circ
  | cubic
  | elastic
  | expo
  | linear
  | quad
  | quart
  | quint
  | sine
  deriving DecidableEq, Repr, Inhabited

/-- Where a curve is slow. -/
inductive Direction where
  /-- at its start -/
  | easeIn
  /-- at both ends -/
  | easeInOut
  /-- at its end -/
  | easeOut
  deriving DecidableEq, Repr, Inhabited

/-- The families in alphabetical order. -/
def Family.all : List Family :=
  [.back, .bounce, .circ, .cubic, .elastic, .expo, .linear, .quad, .quart, .quint, .sine]

/-- The directions in alphabetical order. -/
def Direction.all : List Direction := [.easeIn, .easeInOut, .easeOut]

def Family.name : Family → String
  | .back => "Back"
  | .bounce => "Bounce"
  | .circ => "Circ"
  | .cubic => "Cubic"
  | .elastic => "Elastic"
  | .expo => "Expo"
  | .linear => "Linear"
  | .quad => "Quad"
  | .quart => "Quart"
  | .quint => "Quint"
  | .sine => "Sine"

def Direction.name : Direction → String
  | .easeIn => "In"
  | .easeInOut => "InOut"
  | .easeOut => "Out"

end Easing

/-- A curve of the catalog. -/
inductive Easing where
  /-- the straight line, named without a direction -/
  | straight
  | curve (family : Easing.Family) (direction : Easing.Direction)
  deriving DecidableEq, Repr, Inhabited

namespace Easing

/-- The curves of a family, in alphabetical order of their names. -/
def ofFamily (family : Family) : List Easing :=
  (if family = .linear then [.straight] else []) ++ Direction.all.map (.curve family)

/-- Every curve, in alphabetical order of their names. -/
def all : List Easing := Family.all.flatMap ofFamily

/-- The name of a curve. -/
def name : Easing → String
  | .straight => Family.linear.name
  | .curve family direction => family.name ++ direction.name

/-- Every name, in alphabetical order. -/
def names : List String := all.map name

/-- The curve of a name. -/
def find? (s : String) : Option Easing := all.find? fun e => e.name == s

/-- What is said when no curve has a name. -/
def unknownMessage (s : String) : String :=
  "Unknown easing function '" ++ s ++ "'. Available: " ++ ", ".intercalate names

/-- The value of a curve at time `t`, from `b` over `c` in a segment of length
`d`. -/
def value {α : Type} [Scalar α] : Easing → (t b c d : α) → Except ArithFault α
  | .straight => linear
  | .curve .back .easeIn => backIn
  | .curve .back .easeOut => backOut
  | .curve .back .easeInOut => backInOut
  | .curve .bounce .easeIn => bounceIn
  | .curve .bounce .easeOut => bounceOut
  | .curve .bounce .easeInOut => bounceInOut
  | .curve .circ .easeIn => circIn
  | .curve .circ .easeOut => circOut
  | .curve .circ .easeInOut => circInOut
  | .curve .cubic .easeIn => cubicIn
  | .curve .cubic .easeOut => cubicOut
  | .curve .cubic .easeInOut => cubicInOut
  | .curve .elastic .easeIn => elasticIn
  | .curve .elastic .easeOut => elasticOut
  | .curve .elastic .easeInOut => elasticInOut
  | .curve .expo .easeIn => expoIn
  | .curve .expo .easeOut => expoOut
  | .curve .expo .easeInOut => expoInOut
  | .curve .linear .easeIn => linear
  | .curve .linear .easeOut => linear
  | .curve .linear .easeInOut => linear
  | .curve .quad .easeIn => quadIn
  | .curve .quad .easeOut => quadOut
  | .curve .quad .easeInOut => quadInOut
  | .curve .quart .easeIn => quartIn
  | .curve .quart .easeOut => quartOut
  | .curve .quart .easeInOut => quartInOut
  | .curve .quint .easeIn => quintIn
  | .curve .quint .easeOut => quintOut
  | .curve .quint .easeInOut => quintInOut
  | .curve .sine .easeIn => sineIn
  | .curve .sine .easeOut => sineOut
  | .curve .sine .easeInOut => sineInOut

end Easing

end Orchestrion

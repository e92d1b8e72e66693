import Orchestrion.Document.Yaml.Node
import Orchestrion.Document.Yaml.Scalar

set_option autoImplicit false

/-!
# What nodes stand for

Every node whose keys are atoms, and whose texts all stand for something, is a
value.  Where several texts stand for nothing, the fault told is that of the
outermost one: a collection within another is looked into only when all that is
nested less deeply has been.
-/

namespace Orchestrion.Document.Yaml

/-- The plain text that is a text where a key stands, and nothing elsewhere. -/
def valueKey : String := "="

/-- The key that a node is. -/
def keyOf : Node → Except Fault Atom
  | .plain text => if text = valueKey then .ok (.text text) else ofPlain text
  | .quoted text => .ok (.text text)
  | _ => .error .malformed

/-! ## Values -/

mutual

/-- The value of a node. -/
def Node.toValue : Node → Except Fault Value
  | .plain text =>
    match ofPlain text with
    | .ok a => .ok (.atom a)
    | .error fault => .error fault
  | .quoted text => .ok (.ofText text)
  | .sequence items =>
    match valuesOf items with
    | .ok values => .ok (.list values)
    | .error fault => .error fault
  | .mapping entries =>
    match entriesOf [] entries with
    | .ok entries => .ok (.map entries)
    | .error fault => .error fault
  | .unmergeable => .error .malformed

/-- The values of some nodes. -/
def valuesOf : List Node → Except Fault (List Value)
  | [] => .ok []
  | n :: rest =>
    match n.toValue with
    | .error fault => .error fault
    | .ok v =>
      match valuesOf rest with
      | .error fault => .error fault
      | .ok vs => .ok (v :: vs)

/-- Entries added to those before them; a repeated key keeps its first place and
its last value. -/
def entriesOf (before : List (Atom × Value)) :
    List (Node × Node) → Except Fault (List (Atom × Value))
  | [] => .ok before
  | (k, n) :: rest =>
    match keyOf k with
    | .error fault => .error fault
    | .ok key =>
      match n.toValue with
      | .error fault => .error fault
      | .ok v => entriesOf (put before key v) rest

end

/-! ## The fault that is told -/

/-- Faults level by level, those of the first list before those of the second. -/
def zipLevels : List (Option Fault) → List (Option Fault) → List (Option Fault)
  | [], faults => faults
  | faults, [] => faults
  | x :: xs, y :: ys => x.or y :: zipLevels xs ys

/-- The fault of a result. -/
def faultOf? {β : Type} : Except Fault β → Option Fault
  | .ok _ => none
  | .error fault => some fault

mutual

/-- The first fault on each level of a node: its texts are on the first one, those
of the collections in it on the levels below. -/
def Node.levels : Node → List (Option Fault)
  | .plain text => [faultOf? (ofPlain text)]
  | .quoted _ => []
  | .sequence items => itemLevels items
  | .mapping entries => entryLevels entries
  | .unmergeable => [some .malformed]

/-- The first fault on each level of some nodes within a collection. -/
def itemLevels : List Node → List (Option Fault)
  | [] => []
  | n :: rest =>
    zipLevels (if n.isCollection then none :: n.levels else n.levels) (itemLevels rest)

/-- The first fault on each level of some entries; a key comes before its value. -/
def entryLevels : List (Node × Node) → List (Option Fault)
  | [] => []
  | (k, n) :: rest =>
    zipLevels [faultOf? (keyOf k)]
      (zipLevels (if n.isCollection then none :: n.levels else n.levels) (entryLevels rest))

end

/-- The value of a node, or the fault of the outermost text that has one. -/
def Node.read (n : Node) : Except Fault Value :=
  match n.levels.findSome? id with
  | some fault => .error fault
  | none => n.toValue

end Orchestrion.Document.Yaml

import Orchestrion.Decimal.Notation
import Orchestrion.Text.Quoted

set_option autoImplicit false

/-!
# Document values

A document is made of atoms, lists and mappings.  The keys of a mapping are
atoms, in the order in which they first appear.  Two keys are the same when they
are equal in value, whatever their kind: the integer `1`, the number `1.0` and
`true` are one key, and the text `"1"` is another.
-/

namespace Orchestrion.Document

/-- A value without parts. -/
inductive Atom where
  | null
  | bool (b : Bool)
  | int (n : Int)
  | real (x : Float)
  | text (s : String)
  deriving DecidableEq

/-- A document value. -/
inductive Value where
  | atom (a : Atom)
  | list (items : List Value)
  | map (entries : List (Atom × Value))

/-! ## Keys -/

/-- An atom as a key: what two atoms that are the same key have in common. -/
inductive Key where
  | null
  | text (s : String)
  /-- a number that is an integer -/
  | whole (n : Int)
  /-- a number that is not: its bit pattern -/
  | broken (bits : UInt64)
  /-- a number that is none, the same key as every other one -/
  | nan
  deriving DecidableEq, Repr

/-- The key of a number: numbers of equal value have equal keys. -/
def Key.ofReal (x : Float) : Key :=
  match Binary64.ofFloat x with
  | .nan => .nan
  | .infinite _ => .broken x.toBits
  | .finite s m e =>
    if 0 ≤ e then .whole (Binary64.signed s m * Nat.pow 2 e.toNat)
    else if m % Nat.pow 2 (-e).toNat = 0 then .whole (Binary64.signed s (m / Nat.pow 2 (-e).toNat))
    else .broken x.toBits

/-- The key that an atom is. -/
def Atom.key : Atom → Key
  | .null => .null
  | .bool b => .whole (if b then 1 else 0)
  | .int n => .whole n
  | .real x => .ofReal x
  | .text s => .text s

/-! ## Mappings in order -/

variable {β : Type}

/-- The entry of a key. -/
def find? (entries : List (Atom × β)) (key : Key) : Option β :=
  match entries with
  | [] => none
  | (a, b) :: rest => if a.key = key then some b else find? rest key

/-- Sets the value of a key: in place where the key is, at the end otherwise.
The first spelling of a key stays. -/
def put (entries : List (Atom × β)) (a : Atom) (b : β) : List (Atom × β) :=
  match entries with
  | [] => [(a, b)]
  | (a', b') :: rest => if a'.key = a.key then (a', b) :: rest else (a', b') :: put rest a b

/-- The entry of a text key. -/
def field? (entries : List (Atom × β)) (name : String) : Option β := find? entries (.text name)

/-! ## Questions to a value -/

namespace Value

/-- A text as a value. -/
def ofText (s : String) : Value := .atom (.text s)

/-- Whether a value counts as true: null, false, zero and whatever is empty do
not. -/
def isTrue : Value → Bool
  | .atom .null => false
  | .atom (.bool b) => b
  | .atom (.int n) => n != 0
  | .atom (.real x) => x != 0.0
  | .atom (.text s) => !s.isEmpty
  | .list items => !items.isEmpty
  | .map entries => !entries.isEmpty

/-- The values that a value runs through: the items of a list, the keys of a
mapping, the characters of a text. -/
def items? : Value → Option (List Value)
  | .list items => some items
  | .map entries => some (entries.map fun entry => .atom entry.1)
  | .atom (.text s) => some (s.toList.map fun c => ofText (String.singleton c))
  | .atom _ => none

/-- The name of the kind of a value. -/
def typeName : Value → String
  | .atom .null => "NoneType"
  | .atom (.bool _) => "bool"
  | .atom (.int _) => "int"
  | .atom (.real _) => "float"
  | .atom (.text _) => "str"
  | .list _ => "list"
  | .map _ => "dict"

end Value

/-! ## Text of a value -/

/-- An atom as it is shown inside of other values. -/
def Atom.quoted : Atom → String
  | .null => "None"
  | .bool b => if b then "True" else "False"
  | .int n => Decimal.intText n
  | .real x => Decimal.shortestText x
  | .text s => Text.quoted s

/-- An atom as it is shown by itself. -/
def Atom.shown : Atom → String
  | .text s => s
  | a => a.quoted

mutual

/-- A value as it is shown inside of other values. -/
def Value.quoted : Value → String
  | .atom a => a.quoted
  | .list items => "[" ++ ", ".intercalate (quotedItems items) ++ "]"
  | .map entries => "\x7b" ++ ", ".intercalate (quotedEntries entries) ++ "\x7d"

/-- Every item of a list as it is shown. -/
def quotedItems : List Value → List String
  | [] => []
  | v :: rest => v.quoted :: quotedItems rest

/-- Every entry of a mapping as it is shown. -/
def quotedEntries : List (Atom × Value) → List String
  | [] => []
  | (a, v) :: rest => (a.quoted ++ ": " ++ v.quoted) :: quotedEntries rest

end

/-- A value as it is shown by itself. -/
def Value.shown : Value → String
  | .atom a => a.shown
  | v => v.quoted

end Orchestrion.Document

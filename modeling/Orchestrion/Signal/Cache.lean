set_option autoImplicit false

/-!
# A cache by pitch

A cache holds buffers under their pitches, from the least to the most recently
used.  With a limit, the least recently used are dropped as soon as there are
more; a limit below zero leaves nothing and cannot be met.
-/

namespace Orchestrion

/-- Buffers under their pitches, the least recently used first. -/
structure PitchCache (β : Type) where
  /-- the greatest number of buffers; `none` for any number -/
  limit : Option Int
  entries : List (Int × β)

namespace PitchCache

variable {β : Type}

/-- A cache that holds nothing. -/
def empty (limit : Option Int) : PitchCache β := ⟨limit, []⟩

/-- The pitches, the least recently used first. -/
def keys (c : PitchCache β) : List Int := c.entries.map Prod.fst

/-- Whether a pitch is held. -/
def contains (c : PitchCache β) (pitch : Int) : Bool := c.entries.any fun e => e.1 == pitch

/-- The number of buffers. -/
def size (c : PitchCache β) : Nat := c.entries.length

/-- The buffer of a pitch. -/
def find? (c : PitchCache β) (pitch : Int) : Option β := List.lookup pitch c.entries

/-- The entries without that of a pitch. -/
def without (c : PitchCache β) (pitch : Int) : List (Int × β) :=
  c.entries.filter fun e => e.1 != pitch

/-- Marks a pitch as used: a pitch that is held becomes the most recent one. -/
def touch (c : PitchCache β) (pitch : Int) : PitchCache β :=
  match c.find? pitch with
  | some b => { c with entries := c.without pitch ++ [(pitch, b)] }
  | none => c

/-- Whether the limit can be met. -/
def limitHolds (c : PitchCache β) : Bool :=
  match c.limit with
  | some n => 0 ≤ n
  | none => true

/-- The entries that stay under a limit: the most recent ones. -/
def evict (limit : Option Int) (entries : List (Int × β)) : List (Int × β) :=
  match limit with
  | some n => entries.drop (entries.length - n.toNat)
  | none => entries

/-- Holds a buffer under a pitch, as the most recent one. -/
def put (c : PitchCache β) (pitch : Int) (b : β) : PitchCache β :=
  { c with entries := evict c.limit (c.without pitch ++ [(pitch, b)]) }

/-- Drops everything. -/
def clear (c : PitchCache β) : PitchCache β := { c with entries := [] }

end PitchCache

end Orchestrion

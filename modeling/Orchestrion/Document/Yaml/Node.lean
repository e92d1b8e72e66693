set_option autoImplicit false

/-!
# Nodes of a YAML text

A node is what is written in one place: a text, plain or in quotes, a sequence of
nodes, or a mapping whose keys are nodes as well.

The plain key `<<` merges the entries of its value, a mapping or a sequence of
mappings, into the mapping it stands in.  Merged entries come before all others,
and of the mappings in a sequence the last one comes first, so that an entry of
one's own replaces a merged one.
-/

namespace Orchestrion.Document.Yaml

/-- A node. -/
inductive Node where
  | plain (text : String)
  | quoted (text : String)
  | sequence (items : List Node)
  | mapping (entries : List (Node × Node))
  /-- a mapping that merges something else than mappings -/
  | unmergeable

namespace Node

/-- A node where nothing is written. -/
def empty : Node := .plain ""

/-- Whether a node holds other nodes. -/
def isCollection : Node → Bool
  | .plain _ | .quoted _ => false
  | _ => true

/-- The plain text that merges the value it is the key of. -/
def mergeKey : String := "<<"

/-- Whether a node is the key of a value to merge. -/
def isMergeKey : Node → Bool
  | .plain text => text == mergeKey
  | _ => false

/-- The entries of a mapping. -/
def entries? : Node → Option (List (Node × Node))
  | .mapping entries => some entries
  | _ => none

/-- The entries that a value gives to the mapping it is merged into. -/
def mergeable? : Node → Option (List (Node × Node))
  | .sequence items => (items.reverse.mapM entries?).map List.flatten
  | n => n.entries?

/-- The mapping of some entries, with the values among them that are to be
merged put in front. -/
def ofEntries (entries : List (Node × Node)) : Node :=
  let merged := (entries.filter (·.1.isMergeKey)).mapM (·.2.mergeable?)
  match merged with
  | none => .unmergeable
  | some merged => .mapping (merged.flatten ++ entries.filter (!·.1.isMergeKey))

end Node

end Orchestrion.Document.Yaml

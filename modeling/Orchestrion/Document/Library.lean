import Orchestrion.Document.File

set_option autoImplicit false

/-!
# A library of documents

A document is read from its file once; after that the library has it, whatever
becomes of the file.  Different ways to write a path lead to one document.
-/

namespace Orchestrion.Document

/-- A document that has been read. -/
structure Volume where
  /-- the names from the root that its path is resolved to -/
  names : List String
  /-- how many documents had been read before -/
  number : Nat
  document : Value

/-- The documents that have been read. -/
structure Library where
  volumes : List Volume
  /-- how many have been read so far, those that are gone included -/
  count : Nat
  /-- how many clips the banks of its arrangements keep at most -/
  limit : Option Int
  parsers : Parsers

namespace Library

/-- A library without documents. -/
def empty (parsers : Parsers) (limit : Option Int) : Library := ⟨[], 0, limit, parsers⟩

/-- The document of a path, seen from the current folder, if the library has it. -/
def find? (lib : Library) (current : List String) (path : Path) : Option Volume :=
  if hasZero path then none else lib.volumes.find? fun v => v.names = path.resolved current

/-- Gives all documents away. -/
def clear (lib : Library) : Library := { lib with volumes := [] }

/-- The document of a path. -/
def document (lib : Library) (files : FileTree) (path : Path) :
    Except LoadFault Volume × Library :=
  match lib.find? files.current path with
  | some v => (.ok v, lib)
  | none =>
    match ofFile lib.parsers path (files.look path.text) with
    | .error fault => (.error fault, lib)
    | .ok d =>
      let v : Volume := ⟨path.resolved files.current, lib.count, d⟩
      (.ok v, { lib with volumes := v :: lib.volumes, count := lib.count + 1 })

end Library

end Orchestrion.Document

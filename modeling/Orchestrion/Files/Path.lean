set_option autoImplicit false

/-!
# Paths

A path is a list of names below the current folder or below a root.  Empty
names and single dots between slashes mean nothing; a double dot is kept, as it
may lead out of a folder in more than one way.  Exactly two slashes in front
are a root of their own.

Scope: a name is a text of characters.  File systems keep names as bytes, and
those that are not UTF-8 are left out.  No name is that of a link, so a path is
resolved by its names alone.
-/

namespace Orchestrion

/-- A path. -/
structure Path where
  /-- how many slashes its root has, up to two; none for a relative path -/
  root : Nat
  parts : List String
  deriving DecidableEq, Repr, Inhabited

namespace Path

/-- The name that leads from a folder to itself. -/
def here : String := "."

/-- Whether a name between slashes means something. -/
def isPart (s : String) : Bool := s != "" && s != here

/-- The path of a text. -/
def ofText (s : String) : Path :=
  let slashes := (s.toList.takeWhile (· == '/')).length
  ⟨if slashes ≤ 2 then slashes else 1, (s.splitOn "/").filter isPart⟩

/-- A path as text; the current directory is a dot. -/
def text (p : Path) : String :=
  if p.root = 0 ∧ p.parts.isEmpty then "."
  else String.ofList (List.replicate p.root '/') ++ "/".intercalate p.parts

/-- Whether a path starts at a root. -/
def isAbsolute (p : Path) : Bool := p.root != 0

/-- A path seen from a directory. -/
def join (base p : Path) : Path :=
  if p.isAbsolute then p else ⟨base.root, base.parts ++ p.parts⟩

/-- The path without its last name. -/
def parent (p : Path) : Path := { p with parts := p.parts.dropLast }

/-- The last name. -/
def name (p : Path) : String := p.parts.getLast?.getD ""

/-- The last name from its last dot on; a dot at either end of it is none. -/
def suffix (p : Path) : List Char :=
  let reversed := p.name.toList.reverse
  let tail := reversed.takeWhile (· != '.')
  if tail.isEmpty then []
  else
    match reversed.drop tail.length with
    | '.' :: _ :: _ => '.' :: tail.reverse
    | _ => []

/-- The name that leads from a folder to the one that it is in. -/
def up : String := ".."

/-- The names from the root that a step leads to from a folder; what the root is
in is the root. -/
def stepFrom (folder : List String) (step : String) : List String :=
  if step = here then folder
  else if step = up then folder.dropLast
  else folder ++ [step]

/-- The names from the root of what a path leads to from the current folder, where
every name on the way is that of a folder. -/
def resolved (current : List String) (p : Path) : List String :=
  p.parts.foldl stepFrom (if p.isAbsolute then [] else current)

/-! ## Paths as they are written -/

/-- The characters of a path up to its last slash, and those after it. -/
def splitLast (path : String) : List Char × List Char :=
  let reversed := path.toList.reverse
  ((reversed.dropWhile (· != '/')).reverse, (reversed.takeWhile (· != '/')).reverse)

/-- The names in a path as it is written. -/
def names (path : String) : List String := (path.splitOn "/").filter (· != "")

/-- The steps of a path as it is written; a slash at its end is a step that does
not lead on. -/
def steps (path : String) : List String :=
  if path.endsWith "/" then names path ++ [here] else names path

/-- The folder part of a path as it is written; empty if there is none. -/
def folderText (path : String) : String :=
  let front := (splitLast path).1.reverse
  let trimmed := front.dropWhile (· == '/')
  String.ofList (if trimmed.isEmpty then front else trimmed).reverse

/-- The folder part of a path and the name behind it; slashes at its end do not
count. -/
def splitName (path : String) : String × String :=
  let last := String.ofList (splitLast path).2
  if last.isEmpty then
    let outer := folderText path
    (folderText outer, String.ofList (splitLast outer).2)
  else (folderText path, last)

/-- The last name of a path as it is written from its last dot on; dots at its
beginning are none. -/
def extension (path : String) : String :=
  let name := (splitLast path).2.dropWhile (· == '.')
  let reversed := name.reverse
  let tail := reversed.takeWhile (· != '.')
  if tail.length < name.length then String.ofList tail.reverse else ""

/-- The part of a path in front of its first zero character. -/
def untilZero (path : String) : String := String.ofList (path.toList.takeWhile (· != '\x00'))

/-- The size of the store that the path of an audio file is kept in, in bytes. -/
def audioStore : Nat := 1024

/-- The path at which an audio file is opened: it ends at its first zero
character, a path that fills its store loses its last character, and a longer one
is refused. -/
def audioPath? (path : String) : Option String :=
  let opened := untilZero path
  if audioStore < opened.utf8ByteSize then none
  else if opened.utf8ByteSize = audioStore then some (String.ofList opened.toList.dropLast)
  else some opened

/-- A path as it is written, seen from a folder as it is written. -/
def joinText (folder path : String) : String :=
  if folder.isEmpty || path.startsWith "/" then path
  else if folder.endsWith "/" then folder ++ path
  else folder ++ "/" ++ path

end Path

end Orchestrion

import Orchestrion.Bytes
import Orchestrion.Files.Path

set_option autoImplicit false

/-!
# Trees of files

Files and folders are known by the names that lead to them from the root.  A path
is followed name by name, from the root or from the current folder; every name but
the last has to be that of a folder, also in front of a dot or a double dot, and a
slash at the end is as good as a dot behind it.  Names and paths are limited in
their length, and a name is not seen to be too long before it is reached.

Scope: there are no links, permissions, devices or limits of space, and nobody else
changes the files meanwhile.  The current folder stays where it is.
-/

namespace Orchestrion

/-- What is found at a path. -/
inductive FileState where
  | missing
  | folder
  | file (content : Bytes)
  /-- nothing can be there, as the path or a name in it is too long -/
  | tooLong
  deriving DecidableEq, Repr

/-- Whether there is something. -/
def FileState.exists : FileState → Bool
  | .folder | .file _ => true
  | _ => false

/-- The content of a file. -/
def FileState.content? : FileState → Option Bytes
  | .file content => some content
  | _ => none

/-- A file or a folder in a tree. -/
inductive FileEntry where
  | folder
  | file (content : Bytes)
  deriving DecidableEq, Repr

/-- Why a path leads nowhere. -/
inductive PathFault where
  /-- a folder on the way is missing -/
  | missing
  /-- something on the way is a file -/
  | notFolder
  /-- the path or a name in it is too long -/
  | tooLong
  deriving DecidableEq, Repr

/-- Why folders cannot be made. -/
inductive FolderFault where
  /-- the folder is a file -/
  | isFile
  /-- no path has a zero character -/
  | zero
  | path (fault : PathFault)
  deriving DecidableEq, Repr

/-- Files and folders by the names that lead to them from the root.  The current
folder, and those that it is in, are there as well. -/
structure FileTree where
  /-- the names of the current folder -/
  current : List String
  entries : List (List String × FileEntry)
  deriving DecidableEq, Repr

namespace FileTree

/-- A tree of nothing but the current folder. -/
def bare (current : List String) : FileTree := ⟨current, []⟩

/-- What there is under some names. -/
def entry? (t : FileTree) (names : List String) : Option FileEntry :=
  if names.isPrefixOf t.current then some .folder else List.lookup names t.entries

/-- Sets what there is under some names. -/
def put (t : FileTree) (names : List String) (e : FileEntry) : FileTree :=
  { t with entries := t.entries.filter (fun x => x.1 != names) ++ [(names, e)] }

/-- The longest name, in bytes. -/
def maxNameSize : Nat := 255

/-- The longest path, in bytes. -/
def maxPathSize : Nat := 4095

/-- The names that some steps lead to from other ones. -/
def walk (t : FileTree) (here : List String) : List String → Except PathFault (List String)
  | [] => .ok here
  | step :: rest =>
    match t.entry? here with
    | some .folder =>
      if maxNameSize < step.utf8ByteSize then .error .tooLong
      else walk t (Path.stepFrom here step) rest
    | some (.file _) => .error .notFolder
    | none => .error .missing

/-- The names that a path starts from. -/
def start (t : FileTree) (path : String) : List String :=
  if path.startsWith "/" then [] else t.current

/-- The names that a path leads to. -/
def namesOf (t : FileTree) (path : String) : Except PathFault (List String) :=
  if maxPathSize < path.utf8ByteSize then .error .tooLong
  else if path.isEmpty then .error .missing
  else t.walk (t.start path) (Path.steps path)

/-- What is found at a path. -/
def look (t : FileTree) (path : String) : FileState :=
  match t.namesOf path with
  | .error .tooLong => .tooLong
  | .error _ => .missing
  | .ok names =>
    match t.entry? names with
    | none => .missing
    | some .folder => .folder
    | some (.file content) => .file content

/-! ## Making and removing -/

/-- Makes the folder that a name leads to from another one. -/
def makeStep (t : FileTree) (here : List String) (name : String) : Except FolderFault FileTree :=
  match t.walk here [name] with
  | .error fault => .error (.path fault)
  | .ok names =>
    match t.entry? names with
    | some .folder => .ok t
    | some (.file _) => .error .isFile
    | none => .ok (t.put names .folder)

/-- Makes a folder in one that is there, unless it is there as well. -/
def makeFolder (t : FileTree) (path : String) : Except FolderFault FileTree :=
  if path.contains '\x00' then .error .zero
  else if maxPathSize < path.utf8ByteSize then .error (.path .tooLong)
  else
    let names := Path.names path
    match t.walk (t.start path) names.dropLast with
    | .error fault => .error (.path fault)
    | .ok here => t.makeStep here (names.getLast?.getD Path.here)

/-- Makes a folder and at most `depth` of those it is in. -/
def makeFoldersUpTo (t : FileTree) (path : String) : Nat → Except FolderFault FileTree
  | 0 => t.makeFolder path
  | depth + 1 =>
    let (outer, name) := Path.splitName path
    if outer.isEmpty || name.isEmpty || (t.look outer).exists then t.makeFolder path
    else
      match t.makeFoldersUpTo outer depth with
      | .error fault => .error fault
      | .ok t => if name == Path.here then .ok t else t.makeFolder path

/-- Makes a folder and those it is in. -/
def makeFolders (t : FileTree) (path : String) : Except FolderFault FileTree :=
  t.makeFoldersUpTo path path.length

/-- Writes a file into a folder that is there. -/
def write? (t : FileTree) (path : String) (content : Bytes) : Option FileTree :=
  match t.namesOf path with
  | .error _ => none
  | .ok names =>
    match t.entry? names with
    | some .folder => none
    | _ => some (t.put names (.file content))

/-- Removes a file, or a folder with all that is in it. -/
def remove (t : FileTree) (path : String) : FileTree :=
  match t.namesOf path with
  | .error _ => t
  | .ok names => { t with entries := t.entries.filter fun x => !names.isPrefixOf x.1 }

/-- The names that lead to something in the current folder from there. -/
def inside? (t : FileTree) (names : List String) : Option (List String) :=
  if t.current.isPrefixOf names then some (names.drop t.current.length) else none

/-- The files in the current folder by their paths. -/
def files (t : FileTree) : List (String × Bytes) :=
  t.entries.filterMap fun
    | (names, .file content) =>
      (t.inside? names).map fun inner => ("/".intercalate inner, content)
    | (_, .folder) => none

end FileTree

end Orchestrion

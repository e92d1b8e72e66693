import Orchestrion.CommandLine.Program

set_option autoImplicit false

/-!
# The command

Performs the script of the program on real files.
-/

open Orchestrion
open Orchestrion.CommandLine

/-- What an error in following a path means. -/
def pathFaultOf : IO.Error → PathFault
  | .inappropriateType _ _ _ => .notFolder
  | .invalidArgument _ _ _ => .tooLong
  | _ => .missing

/-- Looks what there is at a path.  What can be opened but not read is a folder. -/
def lookAt (path : String) : IO FileState := do
  let opened : Except PathFault IO.FS.Handle ←
    try
      let handle ← IO.FS.Handle.mk path .read
      pure (.ok handle)
    catch e => pure (.error (pathFaultOf e))
  match opened with
  | .error .tooLong => return .tooLong
  | .error _ => return .missing
  | .ok handle =>
    try
      let content ← handle.readBinToEnd
      return .file content.toList
    catch _ => return .folder

/-- Makes a folder and those it is in. -/
def makeFoldersAt (path : String) : IO (Except FolderFault Unit) := do
  try
    IO.FS.createDirAll path
    return .ok ()
  catch e =>
    match e with
    | .alreadyExists _ _ _ => return .error .isFile
    | e => return .error (.path (pathFaultOf e))

/-- Writes a file; tells whether that was possible. -/
def writeAt (path : String) (content : Bytes) : IO Bool := do
  try
    IO.FS.writeBinFile path ⟨content.toArray⟩
    return true
  catch _ => return false

/-- Performs a script; the result is the exit code. -/
def perform : Script → IO UInt32
  | .say line next => do
    IO.println line
    perform next
  | .warn w next => do
    IO.eprintln w.message
    perform next
  | .look path next => do
    let state ← lookAt path
    perform (next state)
  | .makeFolders path next => do
    let result ← makeFoldersAt path
    perform (next result)
  | .write path content next => do
    let isWritten ← writeAt path content
    perform (next isWritten)
  | .fail failure => do
    IO.eprintln ((failure.line? Platform.builtIn.terminal).join.getD (failureLine "Rendering failed"))
    return 1
  | .done => return 0

/-- The program. -/
def main (arguments : List String) : IO UInt32 :=
  match request arguments with
  | .error fault => do
    IO.eprintln usageLine
    IO.eprintln fault.line
    return 2
  | .ok .help => do
    IO.println usageLine
    return 0
  | .ok (.work o) => perform (work .builtIn o)

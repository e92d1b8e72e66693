import Orchestrion.Arrangement.Build
import Orchestrion.Document.Library

set_option autoImplicit false

/-!
# Arrangements in files

The relative paths of an arrangement are seen from the folder of its file.
-/

namespace Orchestrion

/-- Why a file gives no arrangement. -/
inductive ArrangementFault where
  | document (fault : Document.LoadFault)
  | build (fault : BuildFault)

/-- What is said about a file that gives no arrangement. -/
def ArrangementFault.message? : ArrangementFault → Option String
  | .document fault => fault.message?
  | .build (.config fault) => some fault.message
  | .build _ => none

/-- The arrangement of the document of a path, with a limit to the clips that each
bank keeps. -/
def Build.ofDocument (path : Path) (limit : Option Int) (document : Document.Value) :
    Except ArrangementFault (Arrangement Float) :=
  match Build.arrangement path.parent limit document with
  | .ok a => .ok a
  | .error fault => .error (.build fault)

/-- The arrangement of a path. -/
def Document.Library.arrangement (lib : Library) (files : FileTree) (path : Path) :
    Except ArrangementFault (Arrangement Float) × Library :=
  match lib.document files path with
  | (.error fault, lib) => (.error (.document fault), lib)
  | (.ok v, lib) => (Build.ofDocument path lib.limit v.document, lib)

end Orchestrion

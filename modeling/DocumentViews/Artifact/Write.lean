import DocumentViews.Artifact.Basic
import DocumentViews.Artifact.Name
import DocumentViews.Files.Access

/-!
Writing the artifacts of an output into a directory, which is created if need
be. The first fault ends the writing, and what was written before stays.
-/

namespace DocumentViews.Artifact

inductive Error where
  | badName (name : String) (fault : NameFault)
  | unwritten (path : String) (fault : Fault)

def Error.message : Error → String
  | badName name fault => "invalid output name '" ++ name ++ "': " ++ fault.message
  | unwritten path fault => "failed to write " ++ path ++ ": " ++ fault.message

variable {m : Type → Type} [Monad m] [FileAccess m]

/-- Writes files one after the other and returns their paths. -/
def writeFiles : List (String × String) → m (Except Error (List String))
  | [] => return .ok []
  | (path, text) :: rest => do
    match ← FileAccess.write path text with
    | .error fault => return .error (.unwritten path fault)
    | .ok () =>
      match ← writeFiles rest with
      | .error error => return .error error
      | .ok paths => return .ok (path :: paths)

/-- The path of an artifact of an output. -/
def filePath (directory name ending : String) : String :=
  Path.join directory (name ++ "_" ++ ending)

def write (directory name : String) (graph : Graph) (compiled : View.CompiledPlan) :
    m (Except Error (List String)) := do
  match nameFault? name with
  | some fault => return .error (.badName name fault)
  | none =>
    match ← FileAccess.createDirectories directory with
    | .error fault => return .error (.unwritten directory fault)
    | .ok () =>
      writeFiles ((all graph compiled).map fun (ending, text) =>
        (filePath directory name ending, text))

end DocumentViews.Artifact

import DocumentViews.Files.Access
import DocumentViews.Kernel.Reader

/-!
Kernels from files.
-/

namespace DocumentViews.Kernel

inductive LoadError where
  | unreadable (path : String) (fault : Fault)
  | invalid (error : Error)

def LoadError.message : LoadError → String
  | unreadable path fault => "failed to read kernel config " ++ path ++ ": " ++ fault.message
  | invalid error => error.message

def load {m : Type → Type} [Monad m] [FileAccess m] (path : String) :
    m (Except LoadError Kernel) := do
  match ← FileAccess.read path with
  | .error fault => return .error (.unreadable path fault)
  | .ok text => return (ofText text).mapError .invalid

end DocumentViews.Kernel

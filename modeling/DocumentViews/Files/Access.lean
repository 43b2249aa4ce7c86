import DocumentViews.Files.Fault
import DocumentViews.Files.Path

/-!
Access to files from within a monad, and the creation of a directory with all
directories on the way to it.
-/

namespace DocumentViews

class FileAccess (m : Type → Type) where
  /-- Reads a file as a text. -/
  read : String → m (Except Fault String)
  /-- Writes a text to a file, which is created or replaced. -/
  write : String → String → m (Except Fault Unit)
  /-- Creates a directory in one that exists. -/
  makeDirectory : String → m (Except Fault Unit)
  isDirectory : String → m Bool

namespace FileAccess

variable {m : Type → Type} [Monad m] [FileAccess m]

/-- Creates a directory unless it is there. -/
def ensureDirectory (path : String) : m (Except Fault Unit) := do
  match ← makeDirectory path with
  | .ok () => return .ok ()
  | .error fault => if ← isDirectory path then return .ok () else return .error fault

/-- Creates a directory after those on the way to it, as far as they are
missing. -/
def ensureBelow (path : String) : List String → m (Except Fault Unit)
  | [] => do
    match ← ensureDirectory path with
    | .error .missing => ensureDirectory path
    | result => return result
  | nearest :: rest => do
    match ← ensureDirectory path with
    | .error .missing =>
      match ← ensureBelow nearest rest with
      | .error fault => return .error fault
      | .ok () => ensureDirectory path
    | result => return result

/-- Creates a directory and those on the way to it. The empty path needs
none. -/
def createDirectories (path : String) : m (Except Fault Unit) :=
  if path = "" then pure (.ok ()) else ensureBelow path (Path.ancestors path)

end FileAccess

end DocumentViews

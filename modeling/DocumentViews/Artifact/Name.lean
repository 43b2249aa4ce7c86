import DocumentViews.Files.Path
import DocumentViews.Text.Blank

/-!
Names of outputs. The files of an output are named after it, so its name may
neither be blank nor lead out of the directory it is put into.
-/

namespace DocumentViews.Artifact

inductive NameFault where
  | blank
  | absolute
  | traversal
  | separator
  deriving DecidableEq

def NameFault.message : NameFault → String
  | blank => "output name must not be empty"
  | absolute => "absolute paths are not allowed"
  | traversal => "traversal segments are not allowed"
  | separator => "path separators are not allowed"

/-- The first fault of a name. -/
def nameFault? (name : String) : Option NameFault :=
  if Text.isBlank name then some .blank
  else if Path.isAbsolute name then some .absolute
  else if ".." ∈ Path.segments name then some .traversal
  else if '/' ∈ name.toList ∨ '\\' ∈ name.toList then some .separator
  else none

end DocumentViews.Artifact

/-!
Faults of a file system, with the texts by which it tells of them.
-/

namespace DocumentViews

inductive Fault where
  | missing
  | present
  | notDirectory
  | isDirectory
  | nameTooLong
  | nulByte
  | notUtf8
  /-- A fault of another kind, in the words of the system. -/
  | other (text : String)
  deriving DecidableEq

def Fault.message : Fault → String
  | missing => "No such file or directory (os error 2)"
  | present => "File exists (os error 17)"
  | notDirectory => "Not a directory (os error 20)"
  | isDirectory => "Is a directory (os error 21)"
  | nameTooLong => "File name too long (os error 36)"
  | nulByte => "file name contained an unexpected NUL byte"
  | notUtf8 => "stream did not contain valid UTF-8"
  | other text => text

end DocumentViews

/-!
Paths as texts. Slashes part a path into segments, and one at its front makes
it absolute. Empty segments and single dots lead nowhere.
-/

namespace DocumentViews.Path

/-- The parts between slashes, one more than there are slashes. -/
def splitSlashes : List Char → List (List Char)
  | [] => [[]]
  | c :: rest =>
    if c = '/' then [] :: splitSlashes rest
    else
      match splitSlashes rest with
      | [] => [[c]]
      | segment :: segments => (c :: segment) :: segments

def segments (path : String) : List String :=
  (splitSlashes path.toList).map String.ofList

def isAbsolute (path : String) : Bool :=
  path.toList.head? == some '/'

/-- Whether a segment leads nowhere. -/
def isIdle (segment : String) : Bool :=
  segment == "" || segment == "."

/-- The segments that lead somewhere. -/
def steps (path : String) : List String :=
  (segments path).filter (!isIdle ·)

/-- A path within a directory. An absolute path is not within it. -/
def join (directory path : String) : String :=
  if isAbsolute path ∨ directory = "" then path
  else if directory.toList.getLast? = some '/' then directory ++ path
  else directory ++ "/" ++ path

def ofSteps (absolute : Bool) (steps : List String) : String :=
  (if absolute then "/" else "") ++ String.intercalate "/" steps

/-- The directories on the way to a path, the nearest first. -/
def ancestors (path : String) : List String :=
  let steps := steps path
  ((List.range steps.length).reverse.filter (· ≠ 0)).map fun count =>
    ofSteps (isAbsolute path) (steps.take count)

/-- What stands before the last dot of a file name. A dot at the front does
not count. -/
def nameStem (name : String) : String :=
  match name.toList.reverse.dropWhile (· != '.') with
  | [] => name
  | _ :: stem => if stem.isEmpty then name else String.ofList stem.reverse

/-- The stem of the file that a path leads to. -/
def stem? (path : String) : Option String :=
  match (steps path).getLast? with
  | none => none
  | some name => if name = ".." then none else some (nameStem name)

end DocumentViews.Path

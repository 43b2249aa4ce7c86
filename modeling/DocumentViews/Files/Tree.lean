import DocumentViews.Files.Access
import DocumentViews.Listing

/-!
A file system in memory: the files and directories that exist, by the names on
the way to them from the top, and the directory that relative paths start
from. A file without a text holds bytes that are no text.
-/

namespace DocumentViews

inductive Entry where
  | directory
  | file (text : Option String)
  deriving DecidableEq

structure FileTree where
  entries : Listing (List String) Entry
  /-- Where relative paths start. -/
  here : List String

/-- What a path leads to: a name in a directory that exists, or, without a
name, the directory itself. A slash at the end asks for a directory. -/
structure Location where
  directory : List String
  name : Option String
  slash : Bool

def nameLimit : Nat := 255

def pathLimit : Nat := 4095

namespace FileTree

/-- A tree that holds nothing but the directory to start from. -/
def empty (here : String) : FileTree :=
  ⟨[([here], .directory)], [here]⟩

def entry? (tree : FileTree) (path : List String) : Option Entry :=
  if path = [] then some .directory else Listing.find? tree.entries path

def put (tree : FileTree) (path : List String) (entry : Entry) : FileTree :=
  { tree with entries := tree.entries.put path entry }

/-- The directory that segments lead to from another. -/
def enter (tree : FileTree) (directory : List String) : List String → Except Fault (List String)
  | [] => .ok directory
  | segment :: rest =>
    if Path.isIdle segment then tree.enter directory rest
    else if segment = ".." then tree.enter directory.dropLast rest
    else if nameLimit < segment.utf8ByteSize then .error .nameTooLong
    else
      match tree.entry? (directory ++ [segment]) with
      | none => .error .missing
      | some (.file _) => .error .notDirectory
      | some .directory => tree.enter (directory ++ [segment]) rest

def locate (tree : FileTree) (path : String) : Except Fault Location :=
  if path.toList.any (· == '\x00') then .error .nulByte
  else if path = "" then .error .missing
  else if pathLimit < path.utf8ByteSize then .error .nameTooLong
  else
    let start := if Path.isAbsolute path then [] else tree.here
    let segments := Path.segments path
    let reversed := segments.reverse.dropWhile (· == "")
    match reversed with
    | [] => .ok ⟨start, none, true⟩
    | last :: before =>
      match tree.enter start before.reverse with
      | .error fault => .error fault
      | .ok directory =>
        let slash := decide (reversed.length < segments.length)
        if last = "." then .ok ⟨directory, none, slash⟩
        else if last = ".." then .ok ⟨directory.dropLast, none, slash⟩
        else if nameLimit < last.utf8ByteSize then .error .nameTooLong
        else .ok ⟨directory, some last, slash⟩

def read (tree : FileTree) (path : String) : Except Fault String :=
  match tree.locate path with
  | .error fault => .error fault
  | .ok ⟨_, none, _⟩ => .error .isDirectory
  | .ok ⟨directory, some name, slash⟩ =>
    match tree.entry? (directory ++ [name]) with
    | none => .error .missing
    | some .directory => .error .isDirectory
    | some (.file text) =>
      if slash then .error .notDirectory
      else
        match text with
        | some text => .ok text
        | none => .error .notUtf8

def write (tree : FileTree) (path text : String) : Except Fault FileTree :=
  match tree.locate path with
  | .error fault => .error fault
  | .ok ⟨_, none, _⟩ => .error .isDirectory
  | .ok ⟨directory, some name, slash⟩ =>
    if slash ∨ tree.entry? (directory ++ [name]) = some .directory then .error .isDirectory
    else .ok (tree.put (directory ++ [name]) (.file (some text)))

def makeDirectory (tree : FileTree) (path : String) : Except Fault FileTree :=
  match tree.locate path with
  | .error fault => .error fault
  | .ok ⟨_, none, _⟩ => .error .present
  | .ok ⟨directory, some name, _⟩ =>
    match tree.entry? (directory ++ [name]) with
    | some _ => .error .present
    | none => .ok (tree.put (directory ++ [name]) .directory)

def isDirectory (tree : FileTree) (path : String) : Bool :=
  match tree.locate path with
  | .error _ => false
  | .ok ⟨_, none, _⟩ => true
  | .ok ⟨directory, some name, _⟩ => tree.entry? (directory ++ [name]) = some .directory

/-- The files below a directory with their paths from there. -/
def filesBelow (tree : FileTree) (directory : List String) : List (String × Option String) :=
  tree.entries.filterMap fun (path, entry) =>
    match entry with
    | .directory => none
    | .file text =>
      if directory.isPrefixOf path then
        some (String.intercalate "/" (path.drop directory.length), text)
      else none

/-- Changes a tree unless the change fails. -/
def change (operation : FileTree → Except Fault FileTree) :
    StateM FileTree (Except Fault Unit) := fun tree =>
  match operation tree with
  | .error fault => (.error fault, tree)
  | .ok tree => (.ok (), tree)

instance : FileAccess (StateM FileTree) where
  read path := fun tree => (tree.read path, tree)
  write path text := change (·.write path text)
  makeDirectory path := change (·.makeDirectory path)
  isDirectory path := fun tree => (tree.isDirectory path, tree)

end FileTree

end DocumentViews

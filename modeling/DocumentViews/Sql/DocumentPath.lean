/-!
Paths into a document, in the path language of SQL. A path starts at the
document, each step takes a member, and a step into a collection goes on to
its elements. A member name that is no plain word stands between double
quotes, with a backslash before quotes and backslashes.
-/

namespace DocumentViews.Sql

def startsWord (c : Char) : Bool :=
  c.isAlpha || c == '_'

def continuesWord (c : Char) : Bool :=
  c.isAlphanum || c == '_'

/-- Letters, digits and underscores, and no digit first. -/
def isWord (text : List Char) : Bool :=
  match text with
  | [] => false
  | c :: rest => startsWord c && rest.all continuesWord

def escaped : List Char → List Char
  | [] => []
  | c :: rest => if c = '"' ∨ c = '\\' then '\\' :: c :: escaped rest else c :: escaped rest

/-- One member name as a path writes it. -/
def memberName (key : String) : String :=
  if isWord key.toList then key
  else String.ofList ('"' :: escaped key.toList ++ ['"'])

/-- The path through the elements of `collections`, then to the member `key`. -/
def documentPath (collections : List String) (key : Option String) : String :=
  let steps := collections.map fun collection => "." ++ memberName collection ++ "[*]"
  let last := match key with
    | some k => "." ++ memberName k
    | none => ""
  "$" ++ String.join steps ++ last

end DocumentViews.Sql

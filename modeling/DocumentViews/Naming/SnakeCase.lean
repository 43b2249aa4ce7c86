/-!
Snake case: lower-case words of ASCII letters and digits joined by single
underscores. A word ends where a character of another kind stands, where an
upper-case letter follows a lower-case letter or a digit, and before the last
letter of a run of capitals that a lower-case letter follows.
-/

namespace DocumentViews.Naming

/-- Whether a word ends between `before` and the upper-case letter that
`after` follows. -/
def endsWord (before after : Option Char) : Bool :=
  match before with
  | none => false
  | some b =>
    b.isLower || b.isDigit || (b.isUpper && (match after with
      | some a => a.isLower
      | none => false))

/-- Spells each character in lower case, with an underscore where a word ends
and for every character that belongs to no word. -/
def spell (before : Option Char) : List Char → List Char
  | [] => []
  | c :: rest =>
    let tail := spell (some c) rest
    if c.isUpper then
      if endsWord before rest.head? then '_' :: c.toLower :: tail else c.toLower :: tail
    else if c.isAlphanum then c :: tail
    else '_' :: tail

/-- Keeps one underscore of each run of them. -/
def squeeze : List Char → List Char
  | [] => []
  | c :: rest =>
    if c = '_' ∧ rest.head? = some '_' then squeeze rest else c :: squeeze rest

/-- Drops underscores at both ends. -/
def trimUnderscores (text : List Char) : List Char :=
  ((text.dropWhile (· == '_')).reverse.dropWhile (· == '_')).reverse

def snakeCase (name : String) : String :=
  String.ofList (trimUnderscores (squeeze (spell none name.toList)))

end DocumentViews.Naming

/-!
Identifiers and string literals of SQL. An identifier is written bare when it
is plain and no keyword, otherwise between double quotes. Inside quotes of
either kind the quote itself is written twice.
-/

namespace DocumentViews.Sql

/-- Keywords that cannot stand bare as a column label or a view name. -/
def keywords : List String :=
  ["all", "and", "any", "array", "as", "asc", "both", "case", "cast", "check", "column",
    "constraint", "create", "default", "desc", "distinct", "do", "else", "end", "except",
    "false", "fetch", "for", "foreign", "from", "grant", "group", "having", "in", "intersect",
    "into", "leading", "limit", "not", "null", "offset", "on", "only", "or", "order",
    "primary", "references", "select", "table", "then", "to", "trailing", "true", "union",
    "unique", "user", "using", "when", "where", "window", "with"]

def startsPlain (c : Char) : Bool :=
  c.isLower || c == '_'

def continuesPlain (c : Char) : Bool :=
  c.isLower || c.isDigit || c == '_'

/-- Lower-case letters, digits and underscores, and no digit first. -/
def isPlain (text : List Char) : Bool :=
  match text with
  | [] => false
  | c :: rest => startsPlain c && rest.all continuesPlain

/-- Writes the quote twice wherever it occurs. -/
def doubled (quote : Char) : List Char → List Char
  | [] => []
  | c :: rest => if c = quote then quote :: quote :: doubled quote rest else c :: doubled quote rest

/-- The text between quotes. -/
def enclosed (quote : Char) (text : String) : String :=
  String.ofList (quote :: doubled quote text.toList ++ [quote])

def identifier (name : String) : String :=
  if isPlain name.toList ∧ name ∉ keywords then name else enclosed '"' name

def literal (text : String) : String :=
  enclosed '\'' text

end DocumentViews.Sql

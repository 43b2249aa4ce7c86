import DocumentViews.Json.Number

/-!
JSON values as text. The compact form has no blanks. The indented form puts
each item and member on a line of its own. Members are written in the order in
which they stand. In a string only quotes, backslashes and control characters
are escaped.
-/

namespace DocumentViews.Json

def hexDigit (value : Nat) : Char :=
  (Nat.digitChar (value % 16))

/-- One character of a string, escaped where it has to be. -/
def escapedChar (c : Char) : List Char :=
  if c = '"' then ['\\', '"']
  else if c = '\\' then ['\\', '\\']
  else if c = '\x08' then ['\\', 'b']
  else if c = '\x0c' then ['\\', 'f']
  else if c = '\n' then ['\\', 'n']
  else if c = '\r' then ['\\', 'r']
  else if c = '\t' then ['\\', 't']
  else if c.toNat < 0x20 then ['\\', 'u', '0', '0', hexDigit (c.toNat / 16), hexDigit c.toNat]
  else [c]

/-- A string between quotes. -/
def quoted (text : String) : String :=
  String.ofList ('"' :: text.toList.flatMap escapedChar ++ ['"'])

mutual

/-- The text without blanks. -/
def compact : Json → String
  | null => "null"
  | bool value => if value then "true" else "false"
  | num value => value.text
  | str value => quoted value
  | arr items => "[" ++ String.intercalate "," (compactItems items) ++ "]"
  | obj members => "\x7b" ++ String.intercalate "," (compactMembers members) ++ "\x7d"

def compactItems : List Json → List String
  | [] => []
  | item :: rest => compact item :: compactItems rest

def compactMembers : List (String × Json) → List String
  | [] => []
  | (name, value) :: rest => (quoted name ++ ":" ++ compact value) :: compactMembers rest

end

/-- A new line with two blanks for each level. -/
def newLine (level : Nat) : String :=
  String.ofList ('\n' :: List.replicate (2 * level) ' ')

/-- Lines between brackets, or the brackets alone. -/
def bracketed (left right : String) (level : Nat) (lines : List String) : String :=
  if lines.isEmpty then left ++ right
  else
    left ++ newLine (level + 1) ++ String.intercalate ("," ++ newLine (level + 1)) lines ++
      newLine level ++ right

mutual

/-- The text with a line for each item and member, at the given level. -/
def indentedAt (level : Nat) : Json → String
  | null => "null"
  | bool value => if value then "true" else "false"
  | num value => value.text
  | str value => quoted value
  | arr items => bracketed "[" "]" level (itemLines (level + 1) items)
  | obj members => bracketed "\x7b" "\x7d" level (memberLines (level + 1) members)

def itemLines (level : Nat) : List Json → List String
  | [] => []
  | item :: rest => indentedAt level item :: itemLines level rest

def memberLines (level : Nat) : List (String × Json) → List String
  | [] => []
  | (name, value) :: rest =>
    (quoted name ++ ": " ++ indentedAt level value) :: memberLines level rest

end

def indented (value : Json) : String :=
  indentedAt 0 value

end DocumentViews.Json

import DocumentViews.Text.Hidden

/-!
Texts made visible. A text between quotes shows hidden characters by their
numbers. A text between backticks stands as it is.
-/

namespace DocumentViews.Text

def backtick : Char := Char.ofNat 0x60

/-- The text between backticks. -/
def ticked (text : String) : String :=
  String.ofList (backtick :: text.toList ++ [backtick])

/-- The hexadecimal number of a character between braces. -/
def numbered (c : Char) : List Char :=
  ['\\', 'u', '\x7b'] ++ Nat.toDigits 16 c.toNat ++ ['\x7d']

def visibleChar (c : Char) : List Char :=
  if c = '"' then ['\\', '"']
  else if c = '\\' then ['\\', '\\']
  else if c = '\n' then ['\\', 'n']
  else if c = '\r' then ['\\', 'r']
  else if c = '\t' then ['\\', 't']
  else if c.toNat = 0 then ['\\', '0']
  else if isHidden c then numbered c
  else [c]

/-- The text between quotes, with escapes for what does not show. -/
def visible (text : String) : String :=
  String.ofList ('"' :: text.toList.flatMap visibleChar ++ ['"'])

end DocumentViews.Text

import DocumentViews.Json.Numeral

/-!
The tokens of JSON texts. Where a text goes on with no token, its tokens end
with a mark for that, so that a reader who stops before the mark never learns
of it. A string is read in two steps: first its characters and escapes, then
the characters that the escapes stand for, two surrogates making one.
-/

namespace DocumentViews

inductive Token where
  | leftBrace
  | rightBrace
  | leftBracket
  | rightBracket
  | comma
  | colon
  | null
  | bool (value : Bool)
  | num (value : Number)
  | str (value : String)
  /-- Stands for a rest of the text that begins with no token. -/
  | broken

namespace Token

def isBlankChar (c : Char) : Bool :=
  c == ' ' || c == '\n' || c == '\t' || c == '\r'

def hexValue? (c : Char) : Option Nat :=
  if c.isDigit then some (c.toNat - '0'.toNat)
  else if 'a' ≤ c ∧ c ≤ 'f' then some (c.toNat - 'a'.toNat + 10)
  else if 'A' ≤ c ∧ c ≤ 'F' then some (c.toNat - 'A'.toNat + 10)
  else none

/-- The number that four hexadecimal digits stand for. -/
def codeUnit? (a b c d : Char) : Option Nat := do
  let a ← hexValue? a
  let b ← hexValue? b
  let c ← hexValue? c
  let d ← hexValue? d
  return ((a * 16 + b) * 16 + c) * 16 + d

/-- The character that a letter after a backslash stands for. -/
def namedEscape? (letter : Char) : Option Char :=
  match letter with
  | '"' => some '"'
  | '\\' => some '\\'
  | '/' => some '/'
  | 'b' => some '\x08'
  | 'f' => some '\x0c'
  | 'n' => some '\n'
  | 'r' => some '\r'
  | 't' => some '\t'
  | _ => none

/-- A part of a string: a character, or the number of a numeric escape. -/
inductive Part where
  | char (c : Char)
  | unit (code : Nat)

/-- Reads a string after its opening quote, given the parts before, last
first. Returns its parts and the text after the closing quote. -/
def readParts (before : List Part) : List Char → Option (List Part × List Char)
  | [] => none
  | '"' :: rest => some (before.reverse, rest)
  | '\\' :: 'u' :: a :: b :: c :: d :: rest =>
    match codeUnit? a b c d with
    | some code => readParts (.unit code :: before) rest
    | none => none
  | '\\' :: letter :: rest =>
    match namedEscape? letter with
    | some c => readParts (.char c :: before) rest
    | none => none
  | c :: rest =>
    if c.toNat < 0x20 ∨ c = '\\' then none else readParts (.char c :: before) rest

def isHighSurrogate (code : Nat) : Bool :=
  decide (0xD800 ≤ code) && decide (code < 0xDC00)

def isLowSurrogate (code : Nat) : Bool :=
  decide (0xDC00 ≤ code) && decide (code < 0xE000)

/-- The characters that parts stand for. A surrogate alone stands for none. -/
def ofParts : List Part → Option (List Char)
  | [] => some []
  | .char c :: rest => (ofParts rest).map (c :: ·)
  | .unit high :: .unit low :: rest =>
    if isHighSurrogate high then
      if isLowSurrogate low then
        (ofParts rest).map
          (Char.ofNat (0x10000 + (high - 0xD800) * 0x400 + (low - 0xDC00)) :: ·)
      else none
    else if isLowSurrogate high then none
    else (ofParts (.unit low :: rest)).map (Char.ofNat high :: ·)
  | .unit code :: rest =>
    if isHighSurrogate code ∨ isLowSurrogate code then none
    else (ofParts rest).map (Char.ofNat code :: ·)

/-- Reads a string after its opening quote. -/
def readString (text : List Char) : Option (String × List Char) := do
  let (parts, rest) ← readParts [] text
  let chars ← ofParts parts
  return (String.ofList chars, rest)

def readNumber (text : List Char) : Option (Number × List Char) := do
  let (numeral, rest) ← Numeral.read text
  let value ← numeral.toNumber?
  return (value, rest)

/-- Reads the token that a text begins with. -/
def read (text : List Char) : Option (Token × List Char) :=
  match text with
  | '\x7b' :: rest => some (leftBrace, rest)
  | '\x7d' :: rest => some (rightBrace, rest)
  | '[' :: rest => some (leftBracket, rest)
  | ']' :: rest => some (rightBracket, rest)
  | ',' :: rest => some (comma, rest)
  | ':' :: rest => some (colon, rest)
  | 'n' :: 'u' :: 'l' :: 'l' :: rest => some (null, rest)
  | 't' :: 'r' :: 'u' :: 'e' :: rest => some (bool true, rest)
  | 'f' :: 'a' :: 'l' :: 's' :: 'e' :: rest => some (bool false, rest)
  | '"' :: rest => (readString rest).map fun (value, rest) => (str value, rest)
  | _ => (readNumber text).map fun (value, rest) => (num value, rest)

theorem readParts_length {before parts : List Part} {text rest : List Char}
    (h : readParts before text = some (parts, rest)) : rest.length < text.length := by
  fun_induction readParts before text with
  | case1 => simp at h
  | case2 => simp_all
  | case3 _ _ _ _ _ _ _ _ ih => have := ih h; simp only [List.length_cons]; omega
  | case4 => simp at h
  | case5 _ _ _ _ _ _ ih => have := ih h; simp only [List.length_cons]; omega
  | case6 => simp at h
  | case7 => simp at h
  | case8 _ _ _ _ _ _ _ ih => have := ih h; simp only [List.length_cons]; omega

theorem readString_length {value : String} {text rest : List Char}
    (h : readString text = some (value, rest)) : rest.length < text.length := by
  simp only [readString, Option.bind_eq_bind, Option.bind_eq_some_iff] at h
  obtain ⟨⟨parts, rest'⟩, hparts, chars, -, hrest⟩ := h
  simp only [Option.pure_def, Option.some.injEq, Prod.mk.injEq] at hrest
  exact hrest.2 ▸ readParts_length hparts

theorem readNumber_length {value : Number} {text rest : List Char}
    (h : readNumber text = some (value, rest)) : rest.length < text.length := by
  simp only [readNumber, Option.bind_eq_bind, Option.bind_eq_some_iff] at h
  obtain ⟨⟨numeral, rest'⟩, hnumeral, _, -, hrest⟩ := h
  simp only [Option.pure_def, Option.some.injEq, Prod.mk.injEq] at hrest
  exact hrest.2 ▸ Numeral.read_length hnumeral

theorem read_length {token : Token} {text rest : List Char}
    (h : read text = some (token, rest)) : rest.length < text.length := by
  unfold read at h
  split at h
  case h_10 =>
    obtain ⟨⟨value, rest'⟩, hread, heq⟩ := Option.map_eq_some_iff.1 h
    obtain ⟨-, rfl⟩ := Prod.mk.inj heq
    have := readString_length hread
    simp only [List.length_cons]
    omega
  case h_11 =>
    obtain ⟨⟨value, rest'⟩, hread, heq⟩ := Option.map_eq_some_iff.1 h
    obtain ⟨-, rfl⟩ := Prod.mk.inj heq
    exact readNumber_length hread
  all_goals
    obtain ⟨-, rfl⟩ := Prod.mk.inj (Option.some.inj h)
    simp only [List.length_cons]
    omega

/-- The tokens of a text, without the blanks between them. -/
def tokens (text : List Char) : List Token :=
  match hrest : text.dropWhile isBlankChar with
  | [] => []
  | c :: rest =>
    match hread : read (c :: rest) with
    | none => [broken]
    | some (token, more) =>
      have : more.length < text.length := by
        have := (List.dropWhile_sublist isBlankChar (l := text)).length_le
        have := read_length hread
        simp only [hrest] at *
        omega
      token :: tokens more
termination_by text.length

end Token

end DocumentViews

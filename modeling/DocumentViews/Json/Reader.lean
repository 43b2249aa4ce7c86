import DocumentViews.Json.Token

/-!
JSON values from tokens. Containers may be nested to a given depth and no
deeper. Of two members with one name the later wins. A reading step returns
the tokens after the value, which are fewer than it was given.
-/

namespace DocumentViews.Json

/-- A value at the head of tokens, and the rest of them. -/
abbrev Reading (tokens : List Token) :=
  Option (Json × { rest : List Token // rest.length < tokens.length })

/-- What was read from fewer tokens was also read from more. -/
def Reading.within {few many : List Token} (h : few.length ≤ many.length) :
    Reading few → Reading many
  | none => none
  | some (value, ⟨rest, hrest⟩) => some (value, ⟨rest, Nat.lt_of_lt_of_le hrest h⟩)

theorem length_lt_cons (token : Token) (rest : List Token) :
    rest.length < (token :: rest).length :=
  Nat.lt_succ_self _

mutual

/-- Reads one value, in which containers may be nested to the given depth. -/
def read (depth : Nat) (tokens : List Token) : Reading tokens :=
  match tokens with
  | .null :: rest => some (null, ⟨rest, length_lt_cons _ _⟩)
  | .bool value :: rest => some (bool value, ⟨rest, length_lt_cons _ _⟩)
  | .num value :: rest => some (num value, ⟨rest, length_lt_cons _ _⟩)
  | .str value :: rest => some (str value, ⟨rest, length_lt_cons _ _⟩)
  | .leftBracket :: .rightBracket :: rest =>
    if depth = 0 then none
    else some (arr [], ⟨rest, Nat.lt_succ_of_lt (length_lt_cons _ _)⟩)
  | .leftBracket :: rest =>
    if depth = 0 then none
    else (readItems (depth - 1) [] rest).within (Nat.le_of_lt (length_lt_cons _ _))
  | .leftBrace :: .rightBrace :: rest =>
    if depth = 0 then none
    else some (obj [], ⟨rest, Nat.lt_succ_of_lt (length_lt_cons _ _)⟩)
  | .leftBrace :: rest =>
    if depth = 0 then none
    else (readMembers (depth - 1) [] rest).within (Nat.le_of_lt (length_lt_cons _ _))
  | _ => none
termination_by 2 * tokens.length
decreasing_by all_goals simp only [List.length_cons]; omega

/-- Reads the items of an array up to its end, given those before, last
first. -/
def readItems (depth : Nat) (before : List Json) (tokens : List Token) : Reading tokens :=
  match read depth tokens with
  | some (item, ⟨.comma :: more, h⟩) =>
    have h : more.length < tokens.length := Nat.lt_of_succ_lt h
    (readItems depth (item :: before) more).within (Nat.le_of_lt h)
  | some (item, ⟨.rightBracket :: more, h⟩) =>
    some (arr (item :: before).reverse, ⟨more, Nat.lt_of_succ_lt h⟩)
  | _ => none
termination_by 2 * tokens.length + 1

/-- Reads the members of an object up to its end, given those before. -/
def readMembers (depth : Nat) (before : Object) (tokens : List Token) : Reading tokens :=
  match tokens with
  | .str name :: .colon :: rest =>
    match read depth rest with
    | some (value, ⟨.comma :: more, h⟩) =>
      have h : more.length < rest.length + 2 := by simp only [List.length_cons] at h; omega
      (readMembers depth (before.insert name value) more).within (Nat.le_of_lt h)
    | some (value, ⟨.rightBrace :: more, h⟩) =>
      some (obj (before.insert name value),
        ⟨more, by simp only [List.length_cons] at h ⊢; omega⟩)
    | _ => none
  | _ => none
termination_by 2 * tokens.length + 1
decreasing_by all_goals simp only [List.length_cons]; omega

end

/-- The value that the tokens of a whole text stand for. -/
def ofTokens? (depth : Nat) (tokens : List Token) : Option Json :=
  match read depth tokens with
  | some (value, ⟨[], _⟩) => some value
  | _ => none

/-- The depth to which containers in a document may be nested. -/
def depthLimit : Nat := 127

def parseWithin? (depth : Nat) (text : String) : Option Json :=
  ofTokens? depth (Token.tokens text.toList)

/-- Reads a document. -/
def parse? (text : String) : Option Json :=
  parseWithin? depthLimit text

end DocumentViews.Json

import Mathlib
import DocumentViews.Sql.Quoting

/-!
The lexemes of SQL texts: bare words, names between double quotes, literals
between single quotes, operators and marks. A quote inside quotes is written
twice. White space, comments to the end of a line and comments between `/*`
and `*/` are no lexemes, and comments of the second kind nest. What is quoted
is read back, up to where it ends, whatever follows.
-/

namespace DocumentViews.Sql

inductive Lexeme where
  /-- A word without quotes: a keyword or a name. -/
  | word (text : String)
  /-- A name between double quotes. -/
  | quoted (text : String)
  /-- A text between single quotes. -/
  | literal (text : String)
  | operator (text : String)
  /-- A character that stands for itself. -/
  | mark (c : Char)
  /-- Stands for a rest that begins with something without an end. -/
  | broken
  deriving DecidableEq

namespace Lexeme

def isSpace (c : Char) : Bool :=
  c == ' ' || c == '\t' || c == '\n' || c == '\r' || c == '\x0b' || c == '\x0c'

def endsLine (c : Char) : Bool :=
  c == '\n' || c == '\r'

def startsBare (c : Char) : Bool :=
  c.isAlpha || c == '_' || decide (0x80 ≤ c.toNat)

def continuesBare (c : Char) : Bool :=
  startsBare c || c.isDigit || c == '$'

def operatorChars : List Char :=
  ['+', '-', '*', '/', '<', '>', '=', '~', '!', '@', '#', '%', '^', '&', '|', '\x60', '?']

def isOperatorChar (c : Char) : Bool :=
  operatorChars.contains c

/-- Whether a comment to the end of the line begins. -/
def startsLineComment (c : Char) (rest : List Char) : Bool :=
  c == '-' && rest.head? == some '-'

/-- Whether a comment with an end of its own begins. -/
def startsBlockComment (c : Char) (rest : List Char) : Bool :=
  c == '/' && rest.head? == some '*'

def startsComment (c : Char) (rest : List Char) : Bool :=
  startsLineComment c rest || startsBlockComment c rest

/-- The text after the end of a comment, which closes as many comments as are
open inside it before. -/
def afterComment (inside : Nat) : List Char → Option (List Char)
  | [] => none
  | '*' :: '/' :: rest =>
    match inside with
    | 0 => some rest
    | inside + 1 => afterComment inside rest
  | '/' :: '*' :: rest => afterComment (inside + 1) rest
  | _ :: rest => afterComment inside rest

/-- The text up to a quote that is not written twice, and the text after it. -/
def readEnclosed (quote : Char) : List Char → Option (List Char × List Char)
  | [] => none
  | c :: rest =>
    if c = quote then
      match rest with
      | [] => some ([], [])
      | d :: more =>
        if d = quote then (readEnclosed quote more).map (Prod.map (quote :: ·) id)
        else some ([], d :: more)
    else (readEnclosed quote rest).map (Prod.map (c :: ·) id)

/-- The operator characters up to a comment, and the text after them. -/
def readOperator : List Char → List Char × List Char
  | [] => ([], [])
  | c :: rest =>
    if isOperatorChar c ∧ startsComment c rest = false then
      (readOperator rest).map (c :: ·) id
    else ([], c :: rest)

/-- Reads what a text begins with: a lexeme, or nothing for white space and
for a comment. Returns the text after it, too. -/
def read (c : Char) (rest : List Char) : Option (Option Lexeme × List Char) :=
  if isSpace c then some (none, rest)
  else if startsLineComment c rest then some (none, rest.dropWhile (!endsLine ·))
  else if startsBlockComment c rest then (afterComment 0 rest.tail).map (none, ·)
  else if c = '"' then
    (readEnclosed c rest).map (Prod.map (fun text => some (quoted (String.ofList text))) id)
  else if c = '\'' then
    (readEnclosed c rest).map (Prod.map (fun text => some (literal (String.ofList text))) id)
  else if startsBare c then
    some (some (word (String.ofList (c :: rest.takeWhile continuesBare))),
      rest.dropWhile continuesBare)
  else if isOperatorChar c then
    some ((readOperator rest).map (fun text => some (operator (String.ofList (c :: text)))) id)
  else some (some (mark c), rest)

theorem afterComment_length {inside : Nat} {text after : List Char}
    (h : afterComment inside text = some after) : after.length ≤ text.length := by
  fun_induction afterComment inside text with
  | case1 => simp at h
  | case2 rest =>
    rw [← Option.some.inj h]
    simp only [List.length_cons]
    omega
  | case3 rest inside ih =>
    have := ih h
    simp only [List.length_cons]
    omega
  | case4 inside rest ih =>
    have := ih h
    simp only [List.length_cons]
    omega
  | case5 inside c rest _ _ ih =>
    have := ih h
    simp only [List.length_cons]
    omega

theorem readEnclosed_length {quote : Char} {text value after : List Char}
    (h : readEnclosed quote text = some (value, after)) : after.length ≤ text.length := by
  fun_induction readEnclosed quote text generalizing value after with
  | case1 => simp at h
  | case2 =>
    obtain ⟨-, rfl⟩ := Prod.mk.inj (Option.some.inj h)
    simp
  | case3 more ih =>
    obtain ⟨⟨inside, rest⟩, hread, heq⟩ := Option.map_eq_some_iff.1 h
    obtain ⟨-, rfl⟩ := Prod.mk.inj heq
    have := ih hread
    simp only [List.length_cons, id_eq]
    omega
  | case4 =>
    obtain ⟨-, rfl⟩ := Prod.mk.inj (Option.some.inj h)
    simp
  | case5 c rest hc ih =>
    obtain ⟨⟨inside, after⟩, hread, heq⟩ := Option.map_eq_some_iff.1 h
    obtain ⟨-, rfl⟩ := Prod.mk.inj heq
    have := ih hread
    simp only [List.length_cons, id_eq]
    omega

theorem readOperator_length (text : List Char) : (readOperator text).2.length ≤ text.length := by
  induction text with
  | nil => simp [readOperator]
  | cons c rest ih =>
    rw [readOperator]
    split
    · simp only [Prod.map_snd, id_eq, List.length_cons]
      omega
    · simp

theorem read_length {c : Char} {rest after : List Char} {found : Option Lexeme}
    (h : read c rest = some (found, after)) : after.length ≤ rest.length := by
  have hdrop : ∀ keep : Char → Bool, (rest.dropWhile keep).length ≤ rest.length :=
    fun keep => (List.dropWhile_sublist keep).length_le
  have hquote : ∀ wrap : List Char → Option Lexeme,
      (readEnclosed c rest).map (Prod.map wrap id) = some (found, after) →
        after.length ≤ rest.length := by
    intro wrap hmap
    obtain ⟨⟨value, more⟩, hread, heq⟩ := Option.map_eq_some_iff.1 hmap
    obtain ⟨-, rfl⟩ := Prod.mk.inj heq
    exact readEnclosed_length hread
  unfold read at h
  split at h
  · obtain ⟨-, rfl⟩ := Prod.mk.inj (Option.some.inj h)
    exact le_rfl
  split at h
  · obtain ⟨-, rfl⟩ := Prod.mk.inj (Option.some.inj h)
    exact hdrop _
  split at h
  · obtain ⟨more, hmore, heq⟩ := Option.map_eq_some_iff.1 h
    obtain ⟨-, rfl⟩ := Prod.mk.inj heq
    have := afterComment_length hmore
    have := (List.tail_sublist rest).length_le
    omega
  split at h
  · exact hquote _ h
  split at h
  · exact hquote _ h
  split at h
  · obtain ⟨-, rfl⟩ := Prod.mk.inj (Option.some.inj h)
    exact hdrop _
  split at h
  · obtain ⟨-, rfl⟩ := Prod.mk.inj (Option.some.inj h)
    exact readOperator_length rest
  · obtain ⟨-, rfl⟩ := Prod.mk.inj (Option.some.inj h)
    exact le_rfl

end Lexeme

open Lexeme

/-- The lexemes of a text. -/
def lexemes : List Char → List Lexeme
  | [] => []
  | c :: rest =>
    match hread : read c rest with
    | none => [broken]
    | some (found, after) =>
      have := read_length hread
      found.toList ++ lexemes after
termination_by text => text.length

theorem lexemes_nil : lexemes [] = [] := by
  rw [lexemes]

theorem lexemes_cons {c : Char} {rest after : List Char} {found : Option Lexeme}
    (h : read c rest = some (found, after)) :
    lexemes (c :: rest) = found.toList ++ lexemes after := by
  rw [lexemes]
  split
  · next hnone => rw [h] at hnone; simp at hnone
  · next other more hsome =>
    rw [h] at hsome
    obtain ⟨rfl, rfl⟩ := Prod.mk.inj (Option.some.inj hsome)
    rfl

namespace Lexeme

/-- A character that goes on with nothing that stands before it. -/
def isSeparator (c : Char) : Bool :=
  !continuesBare c && !isOperatorChar c && c != '"' && c != '\''

/-- A text that goes on with nothing that stands before it. -/
def Separated (rest : List Char) : Prop :=
  ∀ c ∈ rest.head?, isSeparator c = true

theorem separated_cons {c : Char} (h : isSeparator c = true) (rest : List Char) :
    Separated (c :: rest) := by
  simpa [Separated] using h

theorem Separated.head_ne {rest : List Char} (h : Separated rest) {c : Char}
    (hc : isSeparator c = false) : rest.head? ≠ some c := by
  intro hhead
  rw [h c hhead] at hc
  exact Bool.noConfusion hc

theorem readEnclosed_cons_of_ne {quote c : Char} (h : c ≠ quote) (rest : List Char) :
    readEnclosed quote (c :: rest) = (readEnclosed quote rest).map (Prod.map (c :: ·) id) := by
  rw [readEnclosed.eq_def]
  exact if_neg h

/-- A text between quotes is read back, and so is where it ends. -/
theorem readEnclosed_doubled (quote : Char) (text : List Char) {rest : List Char}
    (h : rest.head? ≠ some quote) :
    readEnclosed quote (doubled quote text ++ quote :: rest) = some (text, rest) := by
  induction text with
  | nil =>
    cases rest with
    | nil => simp [doubled, readEnclosed]
    | cons d more =>
      have hne : d ≠ quote := fun heq => h (congrArg some heq)
      simp [doubled, readEnclosed, hne]
  | cons c text ih =>
    rw [doubled]
    split
    · next hc => simp [readEnclosed, hc, ih]
    · next hc => rw [List.cons_append, readEnclosed_cons_of_ne hc, ih]; rfl

theorem read_of_startsBare {c : Char} (h : startsBare c = true) (rest : List Char) :
    read c rest = some (some (word (String.ofList (c :: rest.takeWhile continuesBare))),
      rest.dropWhile continuesBare) := by
  have hne : ∀ d, startsBare d = false → c ≠ d := by
    rintro d hd rfl
    rw [h] at hd
    exact Bool.noConfusion hd
  have hspace : isSpace c = false := by
    simp [isSpace, hne ' ' (by decide), hne '\t' (by decide), hne '\n' (by decide),
      hne '\r' (by decide), hne '\x0b' (by decide), hne '\x0c' (by decide)]
  rw [read, if_neg (by simp [hspace]),
    if_neg (by simp [startsLineComment, hne '-' (by decide)]),
    if_neg (by simp [startsBlockComment, hne '/' (by decide)]), if_neg (hne '"' (by decide)),
    if_neg (hne '\'' (by decide)), if_pos h]

end Lexeme

/-- Whether a text is one bare word. -/
def isBare (text : List Char) : Bool :=
  match text with
  | [] => false
  | c :: rest => startsBare c && rest.all continuesBare

theorem lexemes_bare {text : List Char} (h : isBare text = true) {rest : List Char}
    (hrest : Separated rest) :
    lexemes (text ++ rest) = .word (String.ofList text) :: lexemes rest := by
  cases text with
  | nil => simp [isBare] at h
  | cons c text =>
    rw [isBare, Bool.and_eq_true] at h
    obtain ⟨hc, htext⟩ := h
    have hinside : ∀ d ∈ text, continuesBare d = true := by simpa using htext
    have hstop : rest.takeWhile continuesBare = [] ∧ rest.dropWhile continuesBare = rest := by
      cases rest with
      | nil => exact ⟨rfl, rfl⟩
      | cons d more =>
        have hd := hrest d rfl
        have hbare : continuesBare d = false := by
          by_contra hbare
          simp [isSeparator, hbare] at hd
        simp [hbare]
    have hread := read_of_startsBare hc (text ++ rest)
    rw [List.takeWhile_append_of_pos hinside, List.dropWhile_append_of_pos hinside, hstop.1,
      hstop.2, List.append_nil] at hread
    rw [List.cons_append, lexemes_cons hread]
    rfl

/-- A character opens what is read up to the same character. -/
def Encloses (quote : Char) (wrap : String → Lexeme) : Prop :=
  ∀ rest, Lexeme.read quote rest =
    (readEnclosed quote rest).map (Prod.map (fun text => some (wrap (String.ofList text))) id)

theorem Encloses.lexemes_eq {quote : Char} {wrap : String → Lexeme} (h : Encloses quote wrap)
    (text : String) {rest : List Char} (hrest : rest.head? ≠ some quote) :
    lexemes ((enclosed quote text).toList ++ rest) = wrap text :: lexemes rest := by
  have hread := h (doubled quote text.toList ++ quote :: rest)
  rw [readEnclosed_doubled quote text.toList hrest, Option.map_some, Prod.map_apply,
    String.ofList_toList] at hread
  have hsplit : (enclosed quote text).toList ++ rest =
      quote :: (doubled quote text.toList ++ quote :: rest) := by
    simp [enclosed]
  rw [hsplit, lexemes_cons hread]
  rfl

/-- Everything between single quotes is one literal, whatever it holds. -/
theorem lexemes_literal (text : String) {rest : List Char} (hrest : Separated rest) :
    lexemes ((Sql.literal text).toList ++ rest) = .literal text :: lexemes rest := by
  have hquote : Encloses '\'' .literal := fun _ => rfl
  exact hquote.lexemes_eq text (hrest.head_ne (by decide))

/-- Everything between double quotes is one name, whatever it holds. -/
theorem lexemes_quoted (text : String) {rest : List Char} (hrest : Separated rest) :
    lexemes ((enclosed '"' text).toList ++ rest) = .quoted text :: lexemes rest := by
  have hquote : Encloses '"' .quoted := fun _ => rfl
  exact hquote.lexemes_eq text (hrest.head_ne (by decide))

/-- A bare word means its letters in lower case. -/
def folded (text : String) : String :=
  String.ofList (text.toList.map Char.toLower)

/-- The lexeme that a name is written as. -/
def nameLexeme (name : String) : Lexeme :=
  if isPlain name.toList ∧ name ∉ keywords then .word name else .quoted name

theorem startsBare_of_startsPlain {c : Char} (h : startsPlain c = true) : startsBare c = true := by
  simp only [startsPlain, startsBare, Char.isAlpha, Bool.or_eq_true] at h ⊢
  tauto

theorem continuesBare_of_continuesPlain {c : Char} (h : continuesPlain c = true) :
    continuesBare c = true := by
  simp only [continuesPlain, continuesBare, startsBare, Char.isAlpha, Bool.or_eq_true] at h ⊢
  tauto

theorem isBare_of_isPlain {text : List Char} (h : isPlain text = true) : isBare text = true := by
  cases text with
  | nil => simp [isPlain] at h
  | cons c rest =>
    rw [isPlain, Bool.and_eq_true, List.all_eq_true] at h
    rw [isBare, Bool.and_eq_true, List.all_eq_true]
    exact ⟨startsBare_of_startsPlain h.1, fun d hd => continuesBare_of_continuesPlain (h.2 d hd)⟩

theorem lexemes_identifier (name : String) {rest : List Char} (hrest : Separated rest) :
    lexemes ((identifier name).toList ++ rest) = nameLexeme name :: lexemes rest := by
  unfold identifier nameLexeme
  split
  · next hplain =>
    have hword := lexemes_bare (isBare_of_isPlain hplain.1) hrest
    rwa [String.ofList_toList] at hword
  · exact lexemes_quoted name hrest

end DocumentViews.Sql

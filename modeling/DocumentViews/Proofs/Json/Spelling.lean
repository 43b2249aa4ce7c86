import Mathlib
import DocumentViews.Json.Printer
import DocumentViews.Json.Token

/-!
The spellings of JSON tokens. A string may be spelled in many ways, with its
characters as they are, with escapes by letters and with escapes by numbers,
and blanks may stand between tokens. All spellings are read back, and the
printed ones are among them.
-/

namespace DocumentViews.Token

/-- What may stand between quotes for the characters of a string. -/
inductive SpellsChars : List Char → List Char → Prop
  | nil : SpellsChars [] []
  | plain {c : Char} {text chars : List Char} (hvisible : 0x20 ≤ c.toNat) (hquote : c ≠ '"')
      (hbackslash : c ≠ '\\') (hrest : SpellsChars text chars) :
      SpellsChars (c :: text) (c :: chars)
  | named {letter c : Char} {text chars : List Char} (h : namedEscape? letter = some c)
      (hrest : SpellsChars text chars) : SpellsChars ('\\' :: letter :: text) (c :: chars)
  | numbered {a b c d : Char} {code : Nat} {text chars : List Char}
      (h : codeUnit? a b c d = some code) (hhigh : isHighSurrogate code = false)
      (hlow : isLowSurrogate code = false) (hrest : SpellsChars text chars) :
      SpellsChars ('\\' :: 'u' :: a :: b :: c :: d :: text) (Char.ofNat code :: chars)
  /-- Two surrogates stand for one character. -/
  | paired {a b c d a' b' c' d' : Char} {high low : Nat} {text chars : List Char}
      (h : codeUnit? a b c d = some high) (hhigh : isHighSurrogate high = true)
      (h' : codeUnit? a' b' c' d' = some low) (hlow : isLowSurrogate low = true)
      (hrest : SpellsChars text chars) :
      SpellsChars
        ('\\' :: 'u' :: a :: b :: c :: d :: '\\' :: 'u' :: a' :: b' :: c' :: d' :: text)
        (Char.ofNat (0x10000 + (high - 0xD800) * 0x400 + (low - 0xDC00)) :: chars)

/-- What stands for a bracket, a brace, a sign or a string. -/
inductive Spells : List Char → Token → Prop
  | leftBrace : Spells ['\x7b'] .leftBrace
  | rightBrace : Spells ['\x7d'] .rightBrace
  | leftBracket : Spells ['['] .leftBracket
  | rightBracket : Spells [']'] .rightBracket
  | comma : Spells [','] .comma
  | colon : Spells [':'] .colon
  | str {text : List Char} {value : String} (h : SpellsChars text value.toList) :
      Spells ('"' :: text ++ ['"']) (.str value)

/-- What stands for tokens, with blanks before, between and behind them. -/
inductive SpellsAll : List Char → List Token → Prop
  | nil {blanks : List Char} (hblanks : ∀ c ∈ blanks, isBlankChar c = true) :
      SpellsAll blanks []
  | cons {blanks lexeme rest : List Char} {token : Token} {tokens : List Token}
      (hblanks : ∀ c ∈ blanks, isBlankChar c = true) (h : Spells lexeme token)
      (hrest : SpellsAll rest tokens) :
      SpellsAll (blanks ++ (lexeme ++ rest)) (token :: tokens)

/-! ### Strings -/

variable {before parts : List Part} {c : Char} {rest : List Char}

theorem readParts_plain (hvisible : 0x20 ≤ c.toNat) (hquote : c ≠ '"') (hbackslash : c ≠ '\\') :
    readParts before (c :: rest) = readParts (.char c :: before) rest := by
  have hplain : ¬(c.toNat < 0x20 ∨ c = '\\') := by
    rw [not_or]
    exact ⟨by omega, hbackslash⟩
  rw [readParts.eq_def]
  split
  all_goals simp_all

theorem readParts_named {letter : Char} (h : namedEscape? letter = some c) :
    readParts before ('\\' :: letter :: rest) = readParts (.char c :: before) rest := by
  have hletter : letter ≠ 'u' := by
    rintro rfl
    nomatch h
  rw [readParts, h]
  exact fun _ _ _ _ _ heq => absurd heq hletter

theorem readParts_numbered {a b c d : Char} {code : Nat} (h : codeUnit? a b c d = some code) :
    readParts before ('\\' :: 'u' :: a :: b :: c :: d :: rest) =
      readParts (.unit code :: before) rest := by
  rw [readParts, h]

/-- A number that is no surrogate stands for itself, whatever follows. -/
theorem ofParts_unit_cons {code : Nat} (hhigh : isHighSurrogate code = false)
    (hlow : isLowSurrogate code = false) (parts : List Part) :
    ofParts (.unit code :: parts) = (ofParts parts).map (Char.ofNat code :: ·) := by
  cases parts with
  | nil => simp [ofParts, hhigh, hlow]
  | cons part parts =>
    cases part with
    | char c => simp [ofParts, hhigh, hlow]
    | unit low => simp [ofParts, hhigh, hlow]

theorem ofParts_pair {high low : Nat} (hhigh : isHighSurrogate high = true)
    (hlow : isLowSurrogate low = true) (parts : List Part) :
    ofParts (.unit high :: .unit low :: parts) = (ofParts parts).map
      (Char.ofNat (0x10000 + (high - 0xD800) * 0x400 + (low - 0xDC00)) :: ·) := by
  simp [ofParts, hhigh, hlow]

/-- The parts of a spelling, which stand for the characters that it spells. -/
theorem SpellsChars.exists_parts {text chars : List Char} (h : SpellsChars text chars) :
    ∃ parts, ofParts parts = some chars ∧ ∀ before rest,
      readParts before (text ++ '"' :: rest) = some (before.reverse ++ parts, rest) := by
  induction h with
  | nil => exact ⟨[], rfl, fun before rest => by simp [readParts]⟩
  | @plain c text chars hvisible hquote hbackslash _ ih =>
    obtain ⟨parts, hparts, hread⟩ := ih
    refine ⟨.char c :: parts, by simp [ofParts, hparts], fun before rest => ?_⟩
    rw [List.cons_append, readParts_plain hvisible hquote hbackslash, hread]
    simp
  | @named letter c text chars h _ ih =>
    obtain ⟨parts, hparts, hread⟩ := ih
    refine ⟨.char c :: parts, by simp [ofParts, hparts], fun before rest => ?_⟩
    rw [List.cons_append, List.cons_append, readParts_named h, hread]
    simp
  | @numbered a b c d code text chars h hhigh hlow _ ih =>
    obtain ⟨parts, hparts, hread⟩ := ih
    refine ⟨.unit code :: parts, ?_, fun before rest => ?_⟩
    · rw [ofParts_unit_cons hhigh hlow, hparts]
      rfl
    · simp only [List.cons_append]
      rw [readParts_numbered h, hread]
      simp
  | @paired a b c d a' b' c' d' high low text chars h hhigh h' hlow _ ih =>
    obtain ⟨parts, hparts, hread⟩ := ih
    refine ⟨.unit high :: .unit low :: parts, ?_, fun before rest => ?_⟩
    · rw [ofParts_pair hhigh hlow, hparts]
      rfl
    · simp only [List.cons_append]
      rw [readParts_numbered h, readParts_numbered h', hread]
      simp

theorem SpellsChars.readString_eq {text : List Char} {value : String}
    (h : SpellsChars text value.toList) (rest : List Char) :
    readString (text ++ '"' :: rest) = some (value, rest) := by
  obtain ⟨parts, hparts, hread⟩ := h.exists_parts
  simp [readString, hread, hparts]

/-! ### Tokens -/

theorem Spells.read_eq {lexeme : List Char} {token : Token} (h : Spells lexeme token)
    (rest : List Char) : read (lexeme ++ rest) = some (token, rest) := by
  cases h with
  | str h =>
    have hstring := h.readString_eq rest
    rw [List.cons_append, List.cons_append, List.append_assoc, List.singleton_append]
    change (readString _).map _ = _
    rw [hstring]
    rfl
  | _ => rfl

/-- A token begins with no blank. -/
theorem Spells.exists_cons {lexeme : List Char} {token : Token} (h : Spells lexeme token) :
    ∃ c rest, lexeme = c :: rest ∧ isBlankChar c = false := by
  cases h with
  | str h => exact ⟨'"', _, rfl, rfl⟩
  | _ => exact ⟨_, [], rfl, rfl⟩

theorem tokens_of_blanks {blanks : List Char} (h : ∀ c ∈ blanks, isBlankChar c = true) :
    tokens blanks = [] := by
  have hnil : blanks.dropWhile isBlankChar = [] := List.dropWhile_eq_nil_iff.2 h
  rw [tokens]
  split
  · rfl
  · next c rest hrest => exact absurd (hrest.symm.trans hnil) (List.cons_ne_nil c rest)

theorem tokens_of_read {text more : List Char} {token : Token}
    (hread : read (text.dropWhile isBlankChar) = some (token, more)) :
    tokens text = token :: tokens more := by
  rw [tokens]
  split
  · next hrest =>
    have hnone : read [] = none := rfl
    rw [hrest, hnone] at hread
    exact absurd hread (Option.some_ne_none _).symm
  · next c rest hrest =>
    rw [hrest] at hread
    split
    · next hnone => exact absurd (hread.symm.trans hnone) (Option.some_ne_none _)
    · next other rest' hsome =>
      rw [hread] at hsome
      obtain ⟨rfl, rfl⟩ := Prod.mk.inj (Option.some.inj hsome)
      rfl

/-- Every spelling is read back. -/
theorem SpellsAll.tokens_eq {text : List Char} {list : List Token} (h : SpellsAll text list) :
    tokens text = list := by
  induction h with
  | nil hblanks => exact tokens_of_blanks hblanks
  | @cons blanks lexeme rest token list hblanks h _ ih =>
    obtain ⟨c, lexeme', hlexeme, hc⟩ := h.exists_cons
    have hdrop : (blanks ++ (lexeme ++ rest)).dropWhile isBlankChar = lexeme ++ rest := by
      rw [List.dropWhile_append_of_pos hblanks, hlexeme, List.cons_append,
        List.dropWhile_cons_of_neg (by simp [hc])]
    rw [tokens_of_read (by rw [hdrop, h.read_eq]), ih]

theorem SpellsAll.append_blanks {blanks text : List Char} {list : List Token}
    (hblanks : ∀ c ∈ blanks, isBlankChar c = true) (h : SpellsAll text list) :
    SpellsAll (blanks ++ text) list := by
  cases h with
  | nil hmore => exact .nil (List.forall_mem_append.2 ⟨hblanks, hmore⟩)
  | cons hmore h hrest =>
    rw [← List.append_assoc]
    exact .cons (List.forall_mem_append.2 ⟨hblanks, hmore⟩) h hrest

theorem SpellsAll.append {first later : List Char} {list more : List Token}
    (hfirst : SpellsAll first list) (hlater : SpellsAll later more) :
    SpellsAll (first ++ later) (list ++ more) := by
  induction hfirst with
  | nil hblanks => exact hlater.append_blanks hblanks
  | cons hblanks h _ ih =>
    rw [List.append_assoc, List.append_assoc]
    exact .cons hblanks h ih

theorem Spells.all {lexeme : List Char} {token : Token} (h : Spells lexeme token) :
    SpellsAll lexeme [token] := by
  have hblanks : ∀ c ∈ ([] : List Char), isBlankChar c = true := by simp
  have hall := SpellsAll.cons hblanks h (.nil hblanks)
  rwa [List.nil_append, List.append_nil] at hall

theorem spellsAll_intercalate {separator : String} {between : List Token}
    (hseparator : SpellsAll separator.toList between) {texts : List String}
    {lists : List (List Token)}
    (h : List.Forall₂ (fun text list => SpellsAll text.toList list) texts lists) :
    SpellsAll (separator.intercalate texts).toList (between.intercalate lists) := by
  induction h with
  | nil => exact .nil (by simp)
  | @cons text list texts lists htext hrest ih =>
    cases hrest with
    | nil =>
      rw [String.intercalate_singleton, List.intercalate_singleton]
      exact htext
    | cons =>
      rw [String.intercalate_cons_of_ne_nil (List.cons_ne_nil _ _),
        List.intercalate_cons_of_ne_nil (List.cons_ne_nil _ _), String.toList_append,
        String.toList_append]
      exact (htext.append hseparator).append ih

/-! ### Printed strings -/

/-- The number of a control character in four digits. -/
theorem codeUnit?_hexDigit {code : Nat} (h : code < 0x20) :
    codeUnit? '0' '0' (Json.hexDigit (code / 16)) (Json.hexDigit code) = some code := by
  have hall : ∀ code < 0x20,
      codeUnit? '0' '0' (Json.hexDigit (code / 16)) (Json.hexDigit code) = some code := by
    decide
  exact hall code h

theorem SpellsChars.escapedChar {text chars : List Char} (h : SpellsChars text chars) (c : Char) :
    SpellsChars (Json.escapedChar c ++ text) (c :: chars) := by
  unfold Json.escapedChar
  split_ifs with hquote hbackslash hb hf hn hr ht hcontrol
  · exact .named (by rw [hquote]; rfl) h
  · exact .named (by rw [hbackslash]; rfl) h
  · exact .named (by rw [hb]; rfl) h
  · exact .named (by rw [hf]; rfl) h
  · exact .named (by rw [hn]; rfl) h
  · exact .named (by rw [hr]; rfl) h
  · exact .named (by rw [ht]; rfl) h
  · have hnumber := codeUnit?_hexDigit hcontrol
    have hhigh : isHighSurrogate c.toNat = false := by
      simp only [isHighSurrogate, Bool.and_eq_false_iff, decide_eq_false_iff_not]
      omega
    have hlow : isLowSurrogate c.toNat = false := by
      simp only [isLowSurrogate, Bool.and_eq_false_iff, decide_eq_false_iff_not]
      omega
    have hspelled := SpellsChars.numbered hnumber hhigh hlow h
    rwa [Char.ofNat_toNat] at hspelled
  · exact .plain (by omega) hquote hbackslash h

/-- A printed string is a spelling of the string. -/
theorem spells_quoted (value : String) : Spells (Json.quoted value).toList (.str value) := by
  have hchars : ∀ chars : List Char, SpellsChars (chars.flatMap Json.escapedChar) chars := by
    intro chars
    induction chars with
    | nil => exact .nil
    | cons c rest ih => exact ih.escapedChar c
  rw [Json.quoted, String.toList_ofList]
  exact .str (hchars value.toList)

theorem spellsAll_newLine (level : Nat) : SpellsAll (Json.newLine level).toList [] := by
  refine .nil fun c hc => ?_
  rw [Json.newLine, String.toList_ofList] at hc
  rcases List.mem_cons.1 hc with rfl | hc
  · rfl
  · rw [List.eq_of_mem_replicate hc]
    rfl

end DocumentViews.Token

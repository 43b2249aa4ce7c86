import DocumentViews.Proofs.Sql.Lexeme

/-!
Slots of SQL statements, and the texts that spell them. A slot says which
lexeme stands at a place, or which name or literal the lexeme there stands
for. A text that ends inside a lexeme spells its slots only where nothing
follows that the lexeme could go on with, a text that ends between two lexemes
spells them whatever follows. Texts of both kinds are put together.
-/

namespace DocumentViews.Sql

open Lexeme

inductive Slot where
  | word (text : String)
  /-- A name, however it is written. -/
  | name (text : String)
  | literal (text : String)
  | operator (text : String)
  | mark (c : Char)
  deriving DecidableEq

namespace Slot

/-- The lexeme that fills a slot. -/
def lexeme : Slot → Lexeme
  | word text => .word text
  | name text => nameLexeme text
  | literal text => .literal text
  | operator text => .operator text
  | mark c => .mark c

end Slot

/-- Whether a text spells the slots before such texts as may follow. -/
def SpellsBefore (follows : List Char → Prop) (text : String) (slots : List Slot) : Prop :=
  ∀ rest, follows rest → lexemes (text.toList ++ rest) = slots.map Slot.lexeme ++ lexemes rest

/-- Whether a text spells the slots, whatever follows it. -/
def Spells (text : String) (slots : List Slot) : Prop :=
  SpellsBefore (fun _ => True) text slots

/-- Whether a text spells the slots where its last lexeme does not go on. -/
def SpellsApart (text : String) (slots : List Slot) : Prop :=
  SpellsBefore Separated text slots

/-- Whether a text begins with something that no lexeme before it goes on with. -/
def startsApart (text : String) : Bool :=
  text.toList.head?.any isSeparator

theorem separated_of_startsApart {text : String} (h : startsApart text = true)
    (rest : List Char) : Separated (text.toList ++ rest) := by
  unfold startsApart at h
  cases htext : text.toList with
  | nil => simp [htext] at h
  | cons c more =>
    rw [htext] at h
    exact separated_cons h (more ++ rest)

section Parts

variable {first second : String} {slots more : List Slot}

theorem Spells.apart (h : Spells first slots) : SpellsApart first slots :=
  fun rest _ => h rest trivial

/-- The second text follows the first, and what follows both follows it. -/
theorem SpellsBefore.append {follows after : List Char → Prop}
    (hfirst : SpellsBefore follows first slots) (hsecond : SpellsBefore after second more)
    (h : ∀ rest, after rest → follows (second.toList ++ rest)) :
    SpellsBefore after (first ++ second) (slots ++ more) := by
  intro rest hrest
  rw [String.toList_append, List.append_assoc, hfirst _ (h rest hrest), hsecond rest hrest,
    List.map_append, List.append_assoc]

theorem Spells.append (hfirst : Spells first slots) (hsecond : Spells second more) :
    Spells (first ++ second) (slots ++ more) :=
  SpellsBefore.append hfirst hsecond fun _ _ => trivial

theorem Spells.append_apart (hfirst : Spells first slots) (hsecond : SpellsApart second more) :
    SpellsApart (first ++ second) (slots ++ more) :=
  SpellsBefore.append hfirst hsecond fun _ _ => trivial

theorem SpellsApart.append (hfirst : SpellsApart first slots) (hsecond : Spells second more)
    (hstart : startsApart second = true) : Spells (first ++ second) (slots ++ more) :=
  SpellsBefore.append hfirst hsecond fun rest _ => separated_of_startsApart hstart rest

theorem SpellsApart.append_apart (hfirst : SpellsApart first slots)
    (hsecond : SpellsApart second more) (hstart : startsApart second = true) :
    SpellsApart (first ++ second) (slots ++ more) :=
  SpellsBefore.append hfirst hsecond fun rest _ => separated_of_startsApart hstart rest

/-- What stands in a whole text that spells the slots. -/
theorem Spells.lexemes_eq (h : Spells first slots) :
    lexemes first.toList = slots.map Slot.lexeme := by
  simpa [lexemes_nil] using h [] trivial

theorem SpellsApart.lexemes_eq (h : SpellsApart first slots) :
    lexemes first.toList = slots.map Slot.lexeme := by
  have hend : Separated [] := by
    intro c hc
    simp at hc
  simpa [lexemes_nil] using h [] hend

end Parts

theorem spells_space (text : String) (h : text.toList.all isSpace = true) : Spells text [] := by
  intro rest _
  generalize text.toList = chars at h
  induction chars with
  | nil => rfl
  | cons c chars ih =>
    rw [List.all_cons, Bool.and_eq_true] at h
    have hread : Lexeme.read c (chars ++ rest) = some (none, chars ++ rest) := if_pos h.1
    rw [List.cons_append, lexemes_cons hread]
    exact ih h.2

/-- A character that stands for itself, whatever follows. -/
def isMark (c : Char) : Bool :=
  !isSpace c && !startsBare c && !isOperatorChar c && c != '"' && c != '\''

theorem spells_mark (c : Char) (h : isMark c = true) : Spells (String.ofList [c]) [.mark c] := by
  intro rest _
  simp only [isMark, Bool.and_eq_true, Bool.not_eq_true', bne_iff_ne] at h
  obtain ⟨⟨⟨⟨hspace, hbare⟩, hoperator⟩, hdouble⟩, hsingle⟩ := h
  have hne : ∀ d, isOperatorChar d = true → c ≠ d := by
    rintro d hd rfl
    rw [hoperator] at hd
    exact Bool.noConfusion hd
  have hread : Lexeme.read c rest = some (some (.mark c), rest) := by
    rw [Lexeme.read, if_neg (by simp [hspace]),
      if_neg (by simp [startsLineComment, hne '-' (by decide)]),
      if_neg (by simp [startsBlockComment, hne '/' (by decide)]), if_neg hdouble, if_neg hsingle,
      if_neg (by simp [hbare]), if_neg (by simp [hoperator])]
  rw [String.toList_ofList, List.singleton_append, lexemes_cons hread]
  rfl

theorem spellsApart_word (text : String) (h : isBare text.toList = true) :
    SpellsApart text [.word text] := by
  intro rest hrest
  rw [lexemes_bare h hrest, String.ofList_toList]
  rfl

theorem spellsApart_identifier (name : String) : SpellsApart (identifier name) [.name name] :=
  fun _ hrest => lexemes_identifier name hrest

theorem spellsApart_literal (text : String) : SpellsApart (literal text) [.literal text] :=
  fun _ hrest => lexemes_literal text hrest

/-- Whether a text is one operator. -/
def isOperator (text : List Char) : Bool :=
  !text.isEmpty && readOperator text == (text, [])

theorem startsComment_append {c : Char} {text rest : List Char}
    (h : startsComment c text = false) (hrest : Separated rest) :
    startsComment c (text ++ rest) = false := by
  cases text with
  | cons d text => exact h
  | nil =>
    have hline := hrest.head_ne (c := '-') (by decide)
    have hblock := hrest.head_ne (c := '*') (by decide)
    simp [startsComment, startsLineComment, startsBlockComment, hline, hblock]

theorem readOperator_eq_self {c : Char} {text : List Char}
    (h : readOperator (c :: text) = (c :: text, [])) :
    isOperatorChar c = true ∧ startsComment c text = false ∧ readOperator text = (text, []) := by
  rw [readOperator] at h
  split at h
  · next hc =>
    obtain ⟨hfirst, hsecond⟩ := Prod.mk.inj h
    exact ⟨hc.1, hc.2, Prod.ext (List.cons.inj hfirst).2 hsecond⟩
  · exact absurd (Prod.mk.inj h).1 (List.cons_ne_nil c text).symm

theorem readOperator_append {text rest : List Char} (h : readOperator text = (text, []))
    (hrest : Separated rest) : readOperator (text ++ rest) = (text, rest) := by
  induction text with
  | nil =>
    cases rest with
    | nil => rfl
    | cons d rest =>
      have hd : isOperatorChar d = false := by
        have := hrest d rfl
        simp only [isSeparator, Bool.and_eq_true, Bool.not_eq_true'] at this
        exact this.1.1.2
      simp [readOperator, hd]
  | cons c text ih =>
    obtain ⟨hc, hcomment, htext⟩ := readOperator_eq_self h
    rw [List.cons_append, readOperator, if_pos ⟨hc, startsComment_append hcomment hrest⟩, ih htext]
    rfl

theorem read_of_isOperatorChar {c : Char} {rest : List Char} (h : isOperatorChar c = true)
    (hcomment : startsComment c rest = false) : Lexeme.read c rest =
      some ((readOperator rest).map
        (fun text => some (.operator (String.ofList (c :: text)))) id) := by
  have hall : operatorChars.all
      (fun d => !isSpace d && !startsBare d && d != '"' && d != '\'') = true := rfl
  have hother := List.all_eq_true.1 hall c (List.contains_iff_mem.1 h)
  simp only [Bool.and_eq_true, Bool.not_eq_true', bne_iff_ne] at hother
  obtain ⟨⟨⟨hspace, hbare⟩, hdouble⟩, hsingle⟩ := hother
  rw [startsComment, Bool.or_eq_false_iff] at hcomment
  rw [Lexeme.read, if_neg (by simp [hspace]), if_neg (by simp [hcomment.1]),
    if_neg (by simp [hcomment.2]), if_neg hdouble, if_neg hsingle, if_neg (by simp [hbare]),
    if_pos h]

theorem spellsApart_operator (text : String) (h : isOperator text.toList = true) :
    SpellsApart text [.operator text] := by
  intro rest hrest
  cases htext : text.toList with
  | nil => simp [isOperator, htext] at h
  | cons c more =>
    simp only [isOperator, htext, List.isEmpty_cons, Bool.not_false, Bool.true_and,
      beq_iff_eq] at h
    obtain ⟨hc, hcomment, hmore⟩ := readOperator_eq_self h
    have hread := read_of_isOperatorChar hc (startsComment_append hcomment hrest)
    have hsame : String.ofList (c :: more) = text := by rw [← htext, String.ofList_toList]
    rw [readOperator_append hmore hrest, Prod.map_apply, hsame] at hread
    rw [List.cons_append, lexemes_cons hread]
    rfl

/-- Texts between which stands what separates them. -/
theorem spellsApart_intercalate {separator : String} {between : List Slot}
    (hseparator : Spells separator between) (hstart : startsApart separator = true)
    {texts : List String} {parts : List (List Slot)} (h : List.Forall₂ SpellsApart texts parts) :
    SpellsApart (separator.intercalate texts) (between.intercalate parts) := by
  induction h with
  | nil => exact (spells_space "" rfl).apart
  | @cons text slots texts parts htext hrest ih =>
    cases hrest with
    | nil =>
      rw [String.intercalate_singleton, List.intercalate_singleton]
      exact htext
    | cons =>
      rw [String.intercalate_cons_of_ne_nil (List.cons_ne_nil _ _),
        List.intercalate_cons_of_ne_nil (List.cons_ne_nil _ _)]
      exact (htext.append hseparator hstart).append_apart ih

end DocumentViews.Sql

import Mathlib
import DocumentViews.Naming.Basic

/-!
Which texts are names. Whatever the key, a display name is in snake case: lower-case
words of letters and digits joined by single underscores. Squeezing leaves
no underscore beside another, trimming leaves none at the ends, and a plural
only puts letters behind a front of the name.
-/

namespace DocumentViews.Naming

/-- A character of a name: a lower-case letter, a digit or an underscore. -/
def isNameChar (c : Char) : Bool :=
  c.isLower || c.isDigit || c == '_'

/-- Two characters that may stand side by side in a name. -/
def Adjoin (c d : Char) : Prop :=
  c = '_' → d ≠ '_'

/-- What a name may begin with. -/
structure IsSnakeFront (text : List Char) : Prop where
  isNameChar : ∀ c ∈ text, isNameChar c = true
  head_ne : text.head? ≠ some '_'
  isChain : text.IsChain Adjoin

/-- Lower-case words of letters and digits, joined by single underscores. -/
structure IsSnake (text : List Char) : Prop extends IsSnakeFront text where
  ne_nil : text ≠ []
  last_ne : text.getLast? ≠ some '_'

theorem isNameChar_of_isLower {c : Char} (h : c.isLower = true) : isNameChar c = true := by
  simp [isNameChar, h]

theorem ne_underscore_of_isLower {c : Char} (h : c.isLower = true) : c ≠ '_' := by
  rintro rfl
  exact absurd h (by decide)

theorem isSnakeFront_nil : IsSnakeFront [] :=
  ⟨by simp, by simp, .nil⟩

theorem head?_eq_some_of_isPrefix {front text : List Char} (h : front <+: text) {c : Char}
    (hhead : front.head? = some c) : text.head? = some c := by
  obtain ⟨rest, rfl⟩ := h
  rw [List.head?_append, hhead, Option.some_or]

theorem IsSnakeFront.of_isPrefix {text front : List Char} (h : IsSnakeFront text)
    (hfront : front <+: text) : IsSnakeFront front where
  isNameChar := fun c hc => h.isNameChar c (hfront.subset hc)
  head_ne := fun hhead => h.head_ne (head?_eq_some_of_isPrefix hfront hhead)
  isChain := List.IsChain.prefix h.isChain hfront

/-- Letters behind a front make a name, whatever the front ends with. -/
theorem IsSnakeFront.append {front word : List Char} (h : IsSnakeFront front)
    (hne : word ≠ []) (hword : ∀ c ∈ word, c.isLower = true) : IsSnake (front ++ word) where
  isNameChar := by
    intro c hc
    rcases List.mem_append.1 hc with hc | hc
    · exact h.isNameChar c hc
    · exact isNameChar_of_isLower (hword c hc)
  head_ne := by
    rw [List.head?_append]
    intro hhead
    rcases Option.or_eq_some_iff.1 hhead with hfront | ⟨-, hfirst⟩
    · exact h.head_ne hfront
    · exact ne_underscore_of_isLower (hword _ (List.mem_of_mem_head? hfirst)) rfl
  isChain := by
    refine List.isChain_append.2 ⟨h.isChain, List.Pairwise.isChain ?_, ?_⟩
    · refine List.pairwise_of_forall_mem_list fun c _ d hd _ => ?_
      exact ne_underscore_of_isLower (hword d hd)
    · intro c _ d hd _
      exact ne_underscore_of_isLower (hword d (List.mem_of_mem_head? hd))
  ne_nil := by simp [hne]
  last_ne := by
    rw [List.getLast?_append_of_ne_nil _ hne]
    intro hlast
    exact ne_underscore_of_isLower (hword _ (List.mem_of_mem_getLast? hlast)) rfl

/-- Spelling leaves only characters of names. -/
theorem isNameChar_spell (before : Option Char) (text : List Char) :
    ∀ c ∈ spell before text, isNameChar c = true := by
  induction text generalizing before with
  | nil => simp [spell]
  | cons first rest ih =>
    have hunderscore : isNameChar '_' = true := rfl
    have htail := ih (some first)
    simp only [spell]
    split
    · next hupper =>
      have hlower : isNameChar first.toLower = true := by
        apply isNameChar_of_isLower
        rw [Char.isLower_toLower_eq_isAlpha, Char.isAlpha, hupper, Bool.true_or]
      split
      · exact List.forall_mem_cons.2 ⟨hunderscore, List.forall_mem_cons.2 ⟨hlower, htail⟩⟩
      · exact List.forall_mem_cons.2 ⟨hlower, htail⟩
    · next hupper =>
      split
      · next halphanum =>
        have hfirst : isNameChar first = true := by
          simp only [Char.isAlphanum, Char.isAlpha, hupper, Bool.false_or] at halphanum
          simp [isNameChar, halphanum]
        exact List.forall_mem_cons.2 ⟨hfirst, htail⟩
      · exact List.forall_mem_cons.2 ⟨hunderscore, htail⟩

theorem squeeze_sublist (text : List Char) : (squeeze text).Sublist text := by
  induction text with
  | nil => exact .slnil
  | cons c rest ih =>
    rw [squeeze]
    split
    · exact ih.cons c
    · exact ih.cons_cons c

/-- Squeezing keeps the first character. -/
theorem head?_squeeze (text : List Char) : (squeeze text).head? = text.head? := by
  induction text with
  | nil => rfl
  | cons c rest ih =>
    rw [squeeze]
    split
    · next hboth => rw [ih, hboth.2, hboth.1, List.head?_cons]
    · rfl

theorem isChain_squeeze (text : List Char) : (squeeze text).IsChain Adjoin := by
  induction text with
  | nil => exact .nil
  | cons c rest ih =>
    rw [squeeze]
    split
    · exact ih
    · next hapart =>
      refine List.isChain_cons.2 ⟨fun d hd hc => ?_, ih⟩
      rw [Option.mem_def, head?_squeeze] at hd
      rintro rfl
      exact hapart ⟨hc, hd⟩

theorem isInfix_trimUnderscores (text : List Char) : trimUnderscores text <:+: text := by
  have hfront : trimUnderscores text <+: text.dropWhile (· == '_') := List.rdropWhile_prefix _ _
  exact hfront.isInfix.trans (List.dropWhile_suffix _).isInfix

theorem head?_dropWhile_underscore (text : List Char) :
    (text.dropWhile (· == '_')).head? ≠ some '_' := by
  intro hhead
  have hfirst := List.head?_dropWhile_not (· == '_') text
  simp [hhead] at hfirst

theorem getLast?_trimUnderscores (text : List Char) :
    (trimUnderscores text).getLast? ≠ some '_' := by
  rw [trimUnderscores, List.getLast?_reverse]
  exact head?_dropWhile_underscore _

theorem head?_trimUnderscores (text : List Char) : (trimUnderscores text).head? ≠ some '_' := by
  have hfront : trimUnderscores text <+: text.dropWhile (· == '_') := List.rdropWhile_prefix _ _
  intro hhead
  exact head?_dropWhile_underscore text (head?_eq_some_of_isPrefix hfront hhead)

theorem toList_snakeCase (key : String) :
    (snakeCase key).toList = trimUnderscores (squeeze (spell none key.toList)) :=
  String.toList_ofList

/-- In snake case a key is a name, unless nothing is left of it. -/
theorem isSnake_snakeCase {key : String} (h : snakeCase key ≠ "") :
    IsSnake (snakeCase key).toList where
  isNameChar := by
    rw [toList_snakeCase]
    intro c hc
    have hsqueezed := (isInfix_trimUnderscores _).subset hc
    exact isNameChar_spell none key.toList c ((squeeze_sublist _).subset hsqueezed)
  head_ne := toList_snakeCase key ▸ head?_trimUnderscores _
  isChain := by
    rw [toList_snakeCase]
    exact List.IsChain.infix (isChain_squeeze _) (isInfix_trimUnderscores _)
  ne_nil := fun hnil => h (String.toList_eq_nil_iff.1 hnil)
  last_ne := toList_snakeCase key ▸ getLast?_trimUnderscores _

/-- A final `y` gives way to `ies`. -/
theorem exists_of_pluralOfY {name other : String} (h : pluralOfY name = some other) :
    ∃ front, name.toList = front ++ ['y'] ∧ other.toList = front ++ ['i', 'e', 's'] := by
  unfold pluralOfY at h
  split at h
  · next c rest heq =>
    split at h
    · simp at h
    · refine ⟨rest.reverse ++ [c], ?_, ?_⟩
      · rw [← List.reverse_reverse name.toList, heq]
        simp
      · rw [← Option.some.inj h, String.toList_append, String.toList_ofList]
        rfl
  · simp at h

/-- The plural of a name is a name. -/
theorem isSnake_plural {name : String} (h : IsSnake name.toList) :
    IsSnake (plural name).toList := by
  have hletters : ∀ {front : List Char}, front <+: name.toList →
      ∀ word : String, word.toList ≠ [] → word.toList.all Char.isLower = true →
        IsSnake (front ++ word.toList) := by
    intro front hfront word hne hword
    exact (h.toIsSnakeFront.of_isPrefix hfront).append hne (List.all_eq_true.1 hword)
  unfold plural
  split
  · exact h
  · split
    · rw [String.toList_append]
      exact hletters List.prefix_rfl "es" (by decide) (by decide)
    · split
      · exact h
      · cases hplural : pluralOfY name with
        | none =>
          rw [Option.getD_none, String.toList_append]
          exact hletters List.prefix_rfl "s" (by decide) (by decide)
        | some plural =>
          obtain ⟨front, hname, heq⟩ := exists_of_pluralOfY hplural
          rw [Option.getD_some, heq]
          exact hletters ⟨['y'], hname.symm⟩ "ies" (by decide) (by decide)

/-- Names of last resort are names. -/
theorem isSnake_of_isLower {word : String} (hne : word.toList ≠ [])
    (hword : word.toList.all Char.isLower = true) : IsSnake word.toList :=
  isSnakeFront_nil.append hne (List.all_eq_true.1 hword)

/-- Every key names a table in snake case. -/
theorem isSnake_tableName (key : String) : IsSnake (tableName key).toList := by
  simp only [tableName]
  split
  · exact isSnake_of_isLower (by decide) (by decide)
  · next hne => exact isSnake_plural (isSnake_snakeCase hne)

/-- Every key names a column in snake case. -/
theorem isSnake_columnName (key : String) : IsSnake (columnName key).toList := by
  simp only [columnName]
  split
  · exact isSnake_of_isLower (by decide) (by decide)
  · next hne => exact isSnake_snakeCase hne

end DocumentViews.Naming

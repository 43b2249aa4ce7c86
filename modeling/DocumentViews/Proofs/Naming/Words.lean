import Mathlib
import DocumentViews.Proofs.Naming.Snake

/-!
Which text a key becomes in snake case. The letters and digits of the key are
kept in order and in lower case. Whether an underscore stands between two that
follow each other depends on what stood between them, on their own kinds and on
the character after them. `joinWords` reads the key once and writes just that,
and the three passes of the program come to the same. No other text is the key
in snake case, and blanks around the key make no difference.
-/

namespace DocumentViews.Naming

/-- The letters and digits of a text, in lower case. -/
def kept (text : List Char) : List Char :=
  (text.filter Char.isAlphanum).map Char.toLower

/-- A text without its underscores. -/
def bare (text : List Char) : List Char :=
  text.filter (· != '_')

/-- A word ends between `c` and `d`. `gap` stands between the two and holds no
letter or digit, and `after` follows. -/
def IsParted (c : Char) (gap : List Char) (d : Char) (after : List Char) : Prop :=
  gap ≠ [] ∨
    d.isUpper = true ∧
      (c.isLower = true ∨ c.isDigit = true ∨
        c.isUpper = true ∧ after.head?.any Char.isLower = true)

instance (c : Char) (gap : List Char) (d : Char) (after : List Char) :
    Decidable (IsParted c gap d after) :=
  inferInstanceAs (Decidable (_ ∨ _))

/-- `form` is `text` in snake case. -/
structure IsSnakeForm (text form : List Char) : Prop where
  bare_eq : bare form = kept text
  /-- Where `d` is the next to be kept after `c`, one underscore stands between
  them if a word ends there, and nothing otherwise. -/
  boundary : ∀ before c gap d after, text = before ++ c :: (gap ++ d :: after) →
    c.isAlphanum = true → d.isAlphanum = true → (∀ e ∈ gap, e.isAlphanum = false) →
      ∃ left right,
        form = left ++ c.toLower ::
          ((if IsParted c gap d after then ['_'] else []) ++ d.toLower :: right) ∧
        bare left = kept before ∧ bare right = kept after
  head_ne : form.head? ≠ some '_'
  last_ne : form.getLast? ≠ some '_'
  eq_nil_iff : form = [] ↔ ∀ c ∈ text, c.isAlphanum = false

variable {c d : Char} {before last : Option Char} {gap text : List Char}

theorem ne_underscore_of_isAlphanum (h : c.isAlphanum = true) : c ≠ '_' := by
  rintro rfl
  exact absurd h (by decide)

theorem isAlphanum_toLower (h : c.isAlphanum = true) : c.toLower.isAlphanum = true := by
  by_cases hupper : c.isUpper = true
  · have hlower : c.toLower.isLower = true := by
      rw [Char.isLower_toLower_eq_isAlpha, Char.isAlpha, hupper, Bool.true_or]
    simp [Char.isAlphanum, Char.isAlpha, hlower]
  · rwa [Char.toLower_eq_of_not_isUpper hupper]

theorem kinds_of_not_isAlphanum (h : c.isAlphanum = false) :
    c.isUpper = false ∧ c.isLower = false ∧ c.isDigit = false := by
  simp only [Char.isAlphanum, Char.isAlpha, Bool.or_eq_false_iff] at h
  exact ⟨h.1.1, h.1.2, h.2⟩

theorem toLower_ne_underscore (h : c.isAlphanum = true) : c.toLower ≠ '_' :=
  ne_underscore_of_isAlphanum (isAlphanum_toLower h)

theorem kept_cons_of_isAlphanum (h : c.isAlphanum = true) (rest : List Char) :
    kept (c :: rest) = c.toLower :: kept rest := by
  rw [kept, kept, List.filter_cons_of_pos h, List.map_cons]

theorem kept_cons_of_not_isAlphanum (h : ¬c.isAlphanum = true) (rest : List Char) :
    kept (c :: rest) = kept rest := by
  rw [kept, kept, List.filter_cons_of_neg h]

theorem kept_append (front rest : List Char) : kept (front ++ rest) = kept front ++ kept rest := by
  rw [kept, List.filter_append, List.map_append, kept, kept]

theorem kept_eq_nil_iff : kept text = [] ↔ ∀ c ∈ text, c.isAlphanum = false := by
  simp [kept, List.filter_eq_nil_iff]

theorem bare_append (front rest : List Char) : bare (front ++ rest) = bare front ++ bare rest :=
  List.filter_append ..

theorem bare_eq_nil_iff : bare text = [] ↔ ∀ c ∈ text, c = '_' := by
  simp [bare, List.filter_eq_nil_iff]

theorem eq_nil_of_bare_eq_nil (hbare : bare text = []) (hhead : text.head? ≠ some '_') :
    text = [] := by
  cases text with
  | nil => rfl
  | cons c rest =>
    have hc : c = '_' := bare_eq_nil_iff.1 hbare c List.mem_cons_self
    exact absurd (congrArg some hc) hhead

theorem bare_toLower_cons (h : c.isAlphanum = true) (rest : List Char) :
    bare (c.toLower :: rest) = c.toLower :: bare rest := by
  have hne : (c.toLower != '_') = true := bne_iff_ne.2 (toLower_ne_underscore h)
  exact List.filter_cons_of_pos hne

/-! ### The text read once -/

/-- What stands before the letter or digit `d`, where `last` is the one before it. -/
def joint (last : Option Char) (gap : List Char) (d : Char) (after : List Char) : List Char :=
  match last with
  | none => []
  | some c => if IsParted c gap d after then ['_'] else []

/-- Reads on after the letter or digit `last` and the `gap` behind it. -/
def joinWords (last : Option Char) (gap : List Char) : List Char → List Char
  | [] => []
  | d :: rest =>
    if d.isAlphanum then joint last gap d rest ++ d.toLower :: joinWords (some d) [] rest
    else joinWords last (gap ++ [d]) rest

theorem bare_joint (last : Option Char) (gap : List Char) (d : Char) (after : List Char) :
    bare (joint last gap d after) = [] := by
  unfold joint
  split
  · rfl
  · split <;> rfl

theorem bare_joinWords (last : Option Char) (gap text : List Char) :
    bare (joinWords last gap text) = kept text := by
  induction text generalizing last gap with
  | nil => rfl
  | cons d rest ih =>
    rw [joinWords]
    split
    · next hd =>
      rw [bare_append, bare_joint, List.nil_append, bare_toLower_cons hd, ih,
        kept_cons_of_isAlphanum hd]
    · next hd => rw [ih, kept_cons_of_not_isAlphanum hd]

/-- Reading up to a letter or digit. -/
theorem exists_joinWords_append (last : Option Char) (gap front : List Char)
    (hc : c.isAlphanum = true) (rest : List Char) :
    ∃ left, joinWords last gap (front ++ c :: rest) =
        left ++ c.toLower :: joinWords (some c) [] rest ∧
      bare left = kept front := by
  induction front generalizing last gap with
  | nil =>
    refine ⟨joint last gap c rest, ?_, bare_joint last gap c rest⟩
    rw [List.nil_append, joinWords, if_pos hc]
  | cons e front ih =>
    by_cases he : e.isAlphanum = true
    · obtain ⟨left, hjoin, hleft⟩ := ih (some e) []
      refine ⟨joint last gap e (front ++ c :: rest) ++ e.toLower :: left, ?_, ?_⟩
      · rw [List.cons_append, joinWords, if_pos he, hjoin, List.append_assoc, List.cons_append]
      · rw [bare_append, bare_joint, List.nil_append, bare_toLower_cons he, hleft,
          kept_cons_of_isAlphanum he]
    · obtain ⟨left, hjoin, hleft⟩ := ih last (gap ++ [e])
      refine ⟨left, ?_, ?_⟩
      · rw [List.cons_append, joinWords, if_neg he, hjoin]
      · rw [hleft, kept_cons_of_not_isAlphanum he]

/-- Reading over a gap to the letter or digit behind it. -/
theorem joinWords_append (last : Option Char) (gap : List Char) {more : List Char}
    (hmore : ∀ e ∈ more, e.isAlphanum = false) (hd : d.isAlphanum = true) (rest : List Char) :
    joinWords last gap (more ++ d :: rest) =
      joint last (gap ++ more) d rest ++ d.toLower :: joinWords (some d) [] rest := by
  induction more generalizing gap with
  | nil => rw [List.nil_append, joinWords, if_pos hd, List.append_nil]
  | cons e more ih =>
    obtain ⟨he, hmore⟩ := List.forall_mem_cons.1 hmore
    rw [List.cons_append, joinWords, if_neg (ne_true_of_eq_false he), ih _ hmore,
      List.append_assoc, List.singleton_append]

/-! ### The passes of the program -/

theorem endsWord_eq_false (h : ∀ c ∈ before, c.isAlphanum = false) (after : Option Char) :
    endsWord before after = false := by
  cases before with
  | none => rfl
  | some c =>
    obtain ⟨hupper, hlower, hdigit⟩ := kinds_of_not_isAlphanum (h c rfl)
    simp [endsWord, hupper, hlower, hdigit]

/-- With nothing in between, a word ends where the program sees its end. -/
theorem isParted_nil_iff (c d : Char) (after : List Char) :
    IsParted c [] d after ↔ d.isUpper = true ∧ endsWord (some c) after.head? = true := by
  cases after with
  | nil => simp [IsParted, endsWord]
  | cons e after => simp [IsParted, endsWord, or_assoc]

theorem spell_cons_of_isAlphanum (before : Option Char) (hd : d.isAlphanum = true)
    (rest : List Char) :
    spell before (d :: rest) =
      (if d.isUpper = true ∧ endsWord before rest.head? = true then ['_'] else []) ++
        d.toLower :: spell (some d) rest := by
  by_cases hupper : d.isUpper = true
  · by_cases hends : endsWord before rest.head? = true
    · simp [spell, hupper, hends]
    · simp [spell, hupper, hends]
  · simp [spell, hupper, hd, Char.toLower_eq_of_not_isUpper hupper]

theorem spell_cons_of_not_isAlphanum (before : Option Char) (hd : d.isAlphanum = false)
    (rest : List Char) : spell before (d :: rest) = '_' :: spell (some d) rest := by
  simp [spell, hd, (kinds_of_not_isAlphanum hd).1]

/-- After a character that belongs to no word none ends. -/
theorem spell_cons_after_gap (h : ∀ c ∈ before, c.isAlphanum = false)
    (hd : d.isAlphanum = true) (rest : List Char) :
    spell before (d :: rest) = d.toLower :: spell (some d) rest := by
  rw [spell_cons_of_isAlphanum before hd, endsWord_eq_false h]
  simp

theorem squeeze_cons_of_ne (hc : c ≠ '_') (rest : List Char) :
    squeeze (c :: rest) = c :: squeeze rest := by
  rw [squeeze, if_neg fun hboth => hc hboth.1]

theorem squeeze_underscore_cons_of_ne (hd : d ≠ '_') (rest : List Char) :
    squeeze ('_' :: d :: rest) = '_' :: d :: squeeze rest := by
  have hhead : ¬('_' = '_' ∧ (d :: rest).head? = some '_') := by
    simpa using hd
  rw [squeeze, if_neg hhead, squeeze_cons_of_ne hd]

theorem squeeze_underscore_underscore (rest : List Char) :
    squeeze ('_' :: '_' :: rest) = squeeze ('_' :: rest) := by
  rw [squeeze, if_pos ⟨rfl, rfl⟩]

/-- Drops underscores at the end. -/
def trimEnd (text : List Char) : List Char :=
  text.rdropWhile (· == '_')

theorem trimEnd_append_cons (front : List Char) (hc : c ≠ '_') (rest : List Char) :
    trimEnd (front ++ c :: rest) = front ++ c :: trimEnd rest := by
  simp only [trimEnd, List.rdropWhile, List.reverse_append, List.reverse_cons, List.append_assoc]
  rw [List.dropWhile_append]
  split
  · next hnil => simp [hc, List.isEmpty_iff.1 hnil]
  · simp

theorem trimUnderscores_cons_of_ne (hc : c ≠ '_') (rest : List Char) :
    trimUnderscores (c :: rest) = c :: trimEnd rest := by
  have hkeep : (c :: rest).dropWhile (· == '_') = c :: rest :=
    List.dropWhile_cons_of_neg (by simpa using hc)
  rw [trimUnderscores, hkeep]
  exact trimEnd_append_cons [] hc rest

theorem trimUnderscores_squeeze_underscore (rest : List Char) :
    trimUnderscores (squeeze ('_' :: rest)) = trimUnderscores (squeeze rest) := by
  rw [squeeze]
  split
  · rfl
  · rw [trimUnderscores, List.dropWhile_cons_of_pos rfl, trimUnderscores]

/-- After a letter or digit, with nothing or with a gap behind it. -/
theorem trimEnd_squeeze_spell (text : List Char) :
    (∀ c, c.isAlphanum = true →
      trimEnd (squeeze (spell (some c) text)) = joinWords (some c) [] text) ∧
    (∀ c gap e, gap ≠ [] → e.isAlphanum = false →
      trimEnd (squeeze ('_' :: spell (some e) text)) = joinWords (some c) gap text) := by
  -- Both at once, for each step may begin a gap or end it.
  induction text with
  | nil => exact ⟨fun c _ => rfl, fun c gap e _ _ => rfl⟩
  | cons d rest ih =>
    obtain ⟨ihdirect, ihgap⟩ := ih
    constructor
    · intro c hc
      by_cases hd : d.isAlphanum = true
      · have hne := toLower_ne_underscore hd
        rw [spell_cons_of_isAlphanum _ hd, joinWords, if_pos hd, joint, ← ihdirect d hd]
        simp only [← isParted_nil_iff]
        split
        · rw [List.singleton_append, squeeze_underscore_cons_of_ne hne]
          exact trimEnd_append_cons ['_'] hne _
        · rw [List.nil_append, squeeze_cons_of_ne hne]
          exact trimEnd_append_cons [] hne _
      · have hd' := eq_false_of_ne_true hd
        rw [spell_cons_of_not_isAlphanum _ hd', joinWords, if_neg hd]
        exact ihgap c [d] d (by simp) hd'
    · intro c gap e hgap he
      by_cases hd : d.isAlphanum = true
      · have hne := toLower_ne_underscore hd
        have hparted : IsParted c gap d rest := Or.inl hgap
        rw [spell_cons_after_gap (by simpa using he) hd, joinWords, if_pos hd, joint,
          if_pos hparted, squeeze_underscore_cons_of_ne hne, ← ihdirect d hd]
        exact trimEnd_append_cons ['_'] hne _
      · have hd' := eq_false_of_ne_true hd
        rw [spell_cons_of_not_isAlphanum _ hd', joinWords, if_neg hd,
          squeeze_underscore_underscore]
        exact ihgap c (gap ++ [d]) d (by simp) hd'

/-- Before the first letter or digit. -/
theorem trimUnderscores_squeeze_spell (h : ∀ c ∈ before, c.isAlphanum = false)
    (gap text : List Char) :
    trimUnderscores (squeeze (spell before text)) = joinWords none gap text := by
  induction text generalizing before gap with
  | nil => rfl
  | cons d rest ih =>
    by_cases hd : d.isAlphanum = true
    · have hne := toLower_ne_underscore hd
      rw [spell_cons_after_gap h hd, squeeze_cons_of_ne hne, trimUnderscores_cons_of_ne hne,
        (trimEnd_squeeze_spell rest).1 d hd, joinWords, if_pos hd]
      rfl
    · have hd' := eq_false_of_ne_true hd
      rw [spell_cons_of_not_isAlphanum _ hd', trimUnderscores_squeeze_underscore, joinWords,
        if_neg hd]
      exact ih (by simpa using hd') (gap ++ [d])

theorem toList_snakeCase_eq_joinWords (key : String) :
    (snakeCase key).toList = joinWords none [] key.toList := by
  rw [toList_snakeCase]
  exact trimUnderscores_squeeze_spell (by simp) [] key.toList

theorem head?_snakeCase (key : String) : (snakeCase key).toList.head? ≠ some '_' := by
  rw [toList_snakeCase]
  exact head?_trimUnderscores _

theorem isSnakeForm_snakeCase (key : String) :
    IsSnakeForm key.toList (snakeCase key).toList where
  bare_eq := by
    rw [toList_snakeCase_eq_joinWords, bare_joinWords]
  boundary := by
    intro before c gap d after htext hc hd hgap
    obtain ⟨left, hjoin, hleft⟩ := exists_joinWords_append none [] before hc (gap ++ d :: after)
    refine ⟨left, joinWords (some d) [] after, ?_, hleft, bare_joinWords _ _ _⟩
    rw [toList_snakeCase_eq_joinWords, htext, hjoin, joinWords_append _ _ hgap hd,
      List.nil_append]
    rfl
  head_ne := head?_snakeCase key
  last_ne := by
    rw [toList_snakeCase]
    exact getLast?_trimUnderscores _
  eq_nil_iff := by
    rw [← kept_eq_nil_iff, ← bare_joinWords none [], ← toList_snakeCase_eq_joinWords]
    constructor
    · intro hnil
      rw [hnil]
      rfl
    · intro hbare
      exact eq_nil_of_bare_eq_nil hbare (head?_snakeCase key)

/-! ### One text only is in snake case -/

theorem joinWords_eq_nil (last : Option Char) (gap : List Char)
    (h : ∀ c ∈ text, c.isAlphanum = false) : joinWords last gap text = [] := by
  induction text generalizing gap with
  | nil => rfl
  | cons d rest ih =>
    obtain ⟨hd, hrest⟩ := List.forall_mem_cons.1 h
    rw [joinWords, if_neg (ne_true_of_eq_false hd), ih _ hrest]

/-- What is left without the underscores has a place among them. -/
theorem exists_of_bare_eq {form front rest : List Char} (h : bare form = front ++ c :: rest) :
    ∃ left right, form = left ++ c :: right ∧ bare left = front ∧ bare right = rest := by
  obtain ⟨first, second, rfl, hfirst, hsecond⟩ := List.filter_eq_append_iff.1 h
  obtain ⟨skipped, right, rfl, hskipped, -, hright⟩ := List.filter_eq_cons_iff.1 hsecond
  have hbare : bare skipped = [] := List.filter_eq_nil_iff.2 hskipped
  refine ⟨first ++ skipped, right, by rw [List.append_assoc], ?_, hright⟩
  rw [bare_append, hbare, List.append_nil]
  exact hfirst

/-- The place of a letter is known by the letters before it. -/
theorem append_cons_inj {left left' right right' : List Char} (hc : c ≠ '_')
    (h : left ++ c :: right = left' ++ c :: right') (hbare : bare left = bare left') :
    left = left' ∧ right = right' := by
  have hkeep : ∀ rest, bare (c :: rest) = c :: bare rest := fun rest =>
    List.filter_cons_of_pos (bne_iff_ne.2 hc)
  induction left generalizing left' with
  | nil =>
    cases left' with
    | nil => exact ⟨rfl, (List.cons.inj h).2⟩
    | cons d left' =>
      obtain ⟨rfl, -⟩ := List.cons.inj h
      rw [hkeep] at hbare
      nomatch hbare
  | cons d left ih =>
    cases left' with
    | nil =>
      obtain ⟨rfl, -⟩ := List.cons.inj h
      rw [hkeep] at hbare
      nomatch hbare
    | cons e left' =>
      obtain ⟨rfl, hrest⟩ := List.cons.inj h
      have hbelow : bare left = bare left' := by
        by_cases hd : d = '_'
        · subst hd
          exact hbare
        · have hd' : (d != '_') = true := bne_iff_ne.2 hd
          simpa [bare, List.filter_cons_of_pos, hd'] using hbare
      obtain ⟨rfl, rfl⟩ := ih hrest hbelow
      exact ⟨rfl, rfl⟩

namespace IsSnakeForm

variable {form : List Char}

/-- With the last letter or digit the form ends. -/
theorem exists_eq_concat (h : IsSnakeForm text form) {front rest : List Char}
    (htext : text = front ++ c :: rest) (hc : c.isAlphanum = true)
    (hrest : ∀ e ∈ rest, e.isAlphanum = false) :
    ∃ left, form = left ++ [c.toLower] ∧ bare left = kept front := by
  have hbare : bare form = kept front ++ [c.toLower] := by
    rw [h.bare_eq, htext, kept_append, kept_cons_of_isAlphanum hc, kept_eq_nil_iff.2 hrest]
  obtain ⟨left, right, hform, hleft, hright⟩ := exists_of_bare_eq hbare
  have hnil : right = [] := by
    refine List.getLast?_eq_none_iff.1 (Option.eq_none_iff_forall_ne_some.2 fun e he => ?_)
    obtain rfl := bare_eq_nil_iff.1 hright e (List.mem_of_getLast? he)
    refine h.last_ne ?_
    rw [hform, List.getLast?_append, List.getLast?_cons, he]
    rfl
  exact ⟨left, by rw [hform, hnil], hleft⟩

/-- From a letter or digit on, the form is what the text is read to. -/
theorem exists_eq_append (h : IsSnakeForm text form) {front rest : List Char}
    (htext : text = front ++ c :: rest) (hc : c.isAlphanum = true) :
    ∃ left, form = left ++ c.toLower :: joinWords (some c) [] rest ∧ bare left = kept front := by
  -- The form is known at the next letter or digit, and `boundary` says what stands before it.
  induction hlength : rest.length using Nat.strong_induction_on generalizing front c rest with
  | h length ih =>
    cases hfind : rest.find? Char.isAlphanum with
    | none =>
      have hrest : ∀ e ∈ rest, e.isAlphanum = false := by simpa using hfind
      rw [joinWords_eq_nil _ _ hrest]
      exact h.exists_eq_concat htext hc hrest
    | some d =>
      obtain ⟨hd, gap, after, rfl, hgap⟩ := List.find?_eq_some_iff_append.1 hfind
      have hgap' : ∀ e ∈ gap, e.isAlphanum = false := by simpa using hgap
      obtain ⟨left, right, hform, hleft, -⟩ := h.boundary front c gap d after htext hc hd hgap'
      have hshorter : after.length < length := by
        rw [← hlength, List.length_append, List.length_cons]
        omega
      have hsplit : text = (front ++ c :: gap) ++ d :: after := by
        rw [htext, List.append_assoc, List.cons_append]
      obtain ⟨left', hform', hleft'⟩ := ih after.length hshorter hsplit hd rfl
      have hbare : bare left' = bare (left ++ c.toLower :: joint (some c) gap d after) := by
        rw [hleft', bare_append, bare_toLower_cons hc, bare_joint, hleft, kept_append,
          kept_cons_of_isAlphanum hc, kept_eq_nil_iff.2 hgap']
      have hsame : left' ++ d.toLower :: joinWords (some d) [] after =
          (left ++ c.toLower :: joint (some c) gap d after) ++ d.toLower :: right := by
        rw [← hform', hform, List.append_assoc, List.cons_append]
        rfl
      obtain ⟨-, hright⟩ := append_cons_inj (toLower_ne_underscore hd) hsame hbare
      refine ⟨left, ?_, hleft⟩
      rw [hform, ← hright, joinWords_append _ _ hgap' hd, List.nil_append]
      rfl

theorem eq_joinWords (h : IsSnakeForm text form) : form = joinWords none [] text := by
  cases hfind : text.find? Char.isAlphanum with
  | none =>
    have htext : ∀ c ∈ text, c.isAlphanum = false := by simpa using hfind
    rw [h.eq_nil_iff.2 htext, joinWords_eq_nil _ _ htext]
  | some c =>
    obtain ⟨hc, gap, rest, htext, hgap⟩ := List.find?_eq_some_iff_append.1 hfind
    have hgap' : ∀ e ∈ gap, e.isAlphanum = false := by simpa using hgap
    obtain ⟨left, hform, hleft⟩ := h.exists_eq_append htext hc
    rw [kept_eq_nil_iff.2 hgap'] at hleft
    have hnil : left = [] := by
      refine eq_nil_of_bare_eq_nil hleft fun hhead => h.head_ne ?_
      rw [hform, List.head?_append, hhead, Option.some_or]
    rw [htext, joinWords_append _ _ hgap' hc, hform, hnil]
    rfl

end IsSnakeForm

/-! ### What surrounds a key -/

theorem joinWords_none_append (gap gap' : List Char) {front : List Char}
    (h : ∀ c ∈ front, c.isAlphanum = false) (text : List Char) :
    joinWords none gap (front ++ text) = joinWords none gap' text := by
  induction front generalizing gap with
  | nil =>
    induction text generalizing gap gap' with
    | nil => rfl
    | cons d rest ih =>
      rw [List.nil_append] at ih ⊢
      rw [joinWords, joinWords, ih]
      rfl
  | cons c front ih =>
    obtain ⟨hc, hfront⟩ := List.forall_mem_cons.1 h
    rw [List.cons_append, joinWords, if_neg (ne_true_of_eq_false hc), ih _ hfront]

/-- No word ends at a capital because of what stands behind the key. -/
theorem joint_append (last : Option Char) (gap : List Char) (d : Char) (after : List Char)
    {back : List Char} (h : ∀ c ∈ back, c.isAlphanum = false) :
    joint last gap d (after ++ back) = joint last gap d after := by
  have hhead : (after ++ back).head?.any Char.isLower = after.head?.any Char.isLower := by
    cases after with
    | nil =>
      cases back with
      | nil => rfl
      | cons e back => exact (kinds_of_not_isAlphanum (h e List.mem_cons_self)).2.1
    | cons e after => rfl
  cases last with
  | none => rfl
  | some c =>
    have hparted : IsParted c gap d (after ++ back) ↔ IsParted c gap d after := by
      rw [IsParted, IsParted, hhead]
    simp only [joint, hparted]

theorem joinWords_append_right (last : Option Char) (gap text : List Char) {back : List Char}
    (h : ∀ c ∈ back, c.isAlphanum = false) :
    joinWords last gap (text ++ back) = joinWords last gap text := by
  induction text generalizing last gap with
  | nil => exact joinWords_eq_nil last gap h
  | cons d rest ih => rw [List.cons_append, joinWords, joinWords, joint_append _ _ _ _ h, ih, ih]

/-- Blanks and signs around a key leave no trace. -/
theorem snakeCase_append_append (key : String) {front back : String}
    (hfront : ∀ c ∈ front.toList, c.isAlphanum = false)
    (hback : ∀ c ∈ back.toList, c.isAlphanum = false) :
    snakeCase (front ++ key ++ back) = snakeCase key := by
  rw [← String.toList_inj, toList_snakeCase_eq_joinWords, toList_snakeCase_eq_joinWords,
    String.toList_append, String.toList_append, joinWords_append_right _ _ _ hback,
    joinWords_none_append [] [] hfront]

/-! ### Names are in snake case already -/

theorem not_isUpper_of_isDigit (h : d.isDigit = true) : ¬d.isUpper = true := by
  simp only [Char.isDigit, Char.isUpper, Bool.and_eq_true, decide_eq_true_eq, ge_iff_le,
    UInt32.le_iff_toNat_le, Char.reduceVal, UInt32.reduceToNat] at h ⊢
  omega

theorem not_isUpper_of_isNameChar (h : isNameChar d = true) : ¬d.isUpper = true := by
  rw [isNameChar, Bool.or_eq_true, Bool.or_eq_true, beq_iff_eq] at h
  rcases h with (hlower | hdigit) | rfl
  · exact Char.not_isUpper_of_isLower hlower
  · exact not_isUpper_of_isDigit hdigit
  · decide

theorem isAlphanum_of_isNameChar (h : isNameChar d = true) (hne : d ≠ '_') :
    d.isAlphanum = true := by
  have hkind : d.isLower = true ∨ d.isDigit = true := by
    simpa [isNameChar, hne] using h
  rcases hkind with hlower | hdigit
  · simp [Char.isAlphanum, Char.isAlpha, hlower]
  · simp [Char.isAlphanum, hdigit]

theorem getLast?_ne_of_cons {rest : List Char} (h : (d :: rest).getLast? ≠ some c) :
    rest.getLast? ≠ some c := by
  intro hrest
  refine h ?_
  rw [List.getLast?_cons, hrest, Option.getD_some]

/-- Reading on in the middle of a name, or after the underscore at its end. -/
theorem joinWords_eq_self (hname : ∀ c ∈ text, isNameChar c = true)
    (hchain : text.IsChain Adjoin) (hlast : text.getLast? ≠ some '_') :
    (∀ c, joinWords (some c) [] text = text) ∧
    (∀ c gap, gap ≠ [] → text ≠ [] → text.head? ≠ some '_' →
      joinWords (some c) gap text = '_' :: text) := by
  induction text with
  | nil => exact ⟨fun c => rfl, fun c gap _ hnil => absurd rfl hnil⟩
  | cons d rest ih =>
    obtain ⟨hd, hname⟩ := List.forall_mem_cons.1 hname
    obtain ⟨hadjoin, hchain⟩ := List.isChain_cons.1 hchain
    obtain ⟨ihdirect, ihgap⟩ := ih hname hchain (getLast?_ne_of_cons hlast)
    by_cases hunderscore : d = '_'
    · have hnonempty : rest ≠ [] := by
        rintro rfl
        exact hlast (congrArg some hunderscore)
      have hhead : rest.head? ≠ some '_' := fun hhead => hadjoin '_' hhead hunderscore rfl
      subst hunderscore
      refine ⟨fun c => ?_, fun c gap _ _ hne => absurd rfl hne⟩
      exact ihgap c ['_'] (by simp) hnonempty hhead
    · have halphanum := isAlphanum_of_isNameChar hd hunderscore
      have hupper := not_isUpper_of_isNameChar hd
      have hlower : d.toLower = d := Char.toLower_eq_of_not_isUpper hupper
      constructor
      · intro c
        have hwhole : ¬IsParted c [] d rest := by simp [IsParted, hupper]
        rw [joinWords, if_pos halphanum, joint, if_neg hwhole, hlower, ihdirect, List.nil_append]
      · intro c gap hgap _ _
        have hparted : IsParted c gap d rest := Or.inl hgap
        rw [joinWords, if_pos halphanum, joint, if_pos hparted, hlower, ihdirect,
          List.singleton_append]

theorem IsSnake.joinWords_eq_self (h : IsSnake text) : joinWords none [] text = text := by
  cases text with
  | nil => rfl
  | cons d rest =>
    obtain ⟨hd, hname⟩ := List.forall_mem_cons.1 h.isNameChar
    have hne : d ≠ '_' := fun hd => h.head_ne (congrArg some hd)
    obtain ⟨-, hchain⟩ := List.isChain_cons.1 h.isChain
    have hrest := (Naming.joinWords_eq_self hname hchain (getLast?_ne_of_cons h.last_ne)).1 d
    rw [joinWords, if_pos (isAlphanum_of_isNameChar hd hne),
      Char.toLower_eq_of_not_isUpper (not_isUpper_of_isNameChar hd), hrest]
    rfl

theorem snakeCase_snakeCase (key : String) : snakeCase (snakeCase key) = snakeCase key := by
  by_cases hempty : snakeCase key = ""
  · rw [hempty]
    rfl
  · rw [← String.toList_inj, toList_snakeCase_eq_joinWords]
    exact (isSnake_snakeCase hempty).joinWords_eq_self

/-- Every key in snake case, which is one text only and stays as it is. -/
theorem snakeCase_exact (key : String) :
    IsSnakeForm key.toList (snakeCase key).toList ∧
      (∀ form : String, IsSnakeForm key.toList form.toList → form = snakeCase key) ∧
      snakeCase (snakeCase key) = snakeCase key := by
  refine ⟨isSnakeForm_snakeCase key, fun form hform => ?_, snakeCase_snakeCase key⟩
  rw [← String.toList_inj, hform.eq_joinWords, toList_snakeCase_eq_joinWords]

/-- An acronym, a digit, a letter that is not in ASCII, and underscores. -/
example : snakeCase "_HTTPServer2Gñ__id" = "http_server2_g_id" := by
  decide +kernel

end DocumentViews.Naming

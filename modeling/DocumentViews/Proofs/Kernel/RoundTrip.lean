import Mathlib
import DocumentViews.Kernel.Printer
import DocumentViews.Kernel.Reader
import DocumentViews.Proofs.Json.Spelling
import DocumentViews.Proofs.Text.Blank

/-!
Kernels and their JSON texts. An object with members for some of the slots, in
any order and in any spelling, gives the standard kernel with these identifiers
in place of its own, and so does an array for the first slots. If an identifier
is then blank, the first such slot is reported instead. What was read is never
blank, and a kernel without blanks is read back from its text.
-/

namespace DocumentViews.Kernel

open Token

/-- The tokens of a member of an object. -/
def memberTokens (member : Slot × String) : List Token :=
  [.str member.1.name, .colon, .str member.2]

def objectTokens (members : List (Slot × String)) : List Token :=
  .leftBrace :: ([.comma].intercalate (members.map memberTokens) ++ [.rightBrace])

def arrayTokens (values : List String) : List Token :=
  .leftBracket :: ([.comma].intercalate (values.map fun value => [.str value]) ++ [.rightBracket])

/-- The text is a JSON object with the members in their order. -/
def IsObjectText (members : List (Slot × String)) (text : String) : Prop :=
  SpellsAll text.toList (objectTokens members)

/-- The text is a JSON array of strings. -/
def IsArrayText (values : List String) (text : String) : Prop :=
  SpellsAll text.toList (arrayTokens values)

/-- The kernel with an identifier for each slot. -/
def ofSlots (identifier : Slot → String) : Kernel :=
  ⟨identifier .table, identifier .data, identifier .tags, identifier .bucket,
    identifier .eventAt, identifier .createdAt⟩

/-- The standard kernel, but for the slots that have a member. -/
def overridden (members : List (Slot × String)) : Kernel :=
  ofSlots fun slot => (members.lookup slot).getD (standard.get slot)

/-- No identifier is blank. -/
def IsSound (kernel : Kernel) : Prop :=
  ∀ slot, Text.trimmed (kernel.get slot) ≠ ""

/-- The identifier of the slot is blank, and those before it are not. -/
def IsFirstBlank (kernel : Kernel) (slot : Slot) : Prop :=
  ∃ before after, Slot.all = before ++ slot :: after ∧ Text.trimmed (kernel.get slot) = "" ∧
    ∀ earlier ∈ before, Text.trimmed (kernel.get earlier) ≠ ""

/-- The result is the kernel, or the report of its first blank slot. -/
structure Answers (kernel : Kernel) (result : Except Error Kernel) : Prop where
  eq_ok_iff : ∀ other, result = .ok other ↔ other = kernel ∧ kernel.IsSound
  eq_error_iff : ∀ error, result = .error error ↔
    ∃ slot, error = .blank slot ∧ kernel.IsFirstBlank slot

variable {kernel : Kernel} {members : List (Slot × String)}

/-! ### Slots -/

theorem get_ofSlots (identifier : Slot → String) (slot : Slot) :
    (ofSlots identifier).get slot = identifier slot := by
  cases slot <;> rfl

theorem ext_get {first second : Kernel} (h : ∀ slot, first.get slot = second.get slot) :
    first = second := by
  have hself : ∀ kernel : Kernel, ofSlots kernel.get = kernel := fun _ => rfl
  rw [← hself first, ← hself second, funext h]

/-- The kernel after the identifiers were set one by one. -/
def fill (kernel : Kernel) (members : List (Slot × String)) : Kernel :=
  members.foldl (fun kernel member => kernel.set member.1 member.2) kernel

theorem get_fill (hnodup : (members.map Prod.fst).Nodup) (slot : Slot) :
    (kernel.fill members).get slot = (members.lookup slot).getD (kernel.get slot) := by
  induction members generalizing kernel with
  | nil => rfl
  | cons member rest ih =>
    obtain ⟨other, value⟩ := member
    obtain ⟨hother, hnodup⟩ := List.nodup_cons.1 hnodup
    change ((kernel.set other value).fill rest).get slot = _
    rw [ih hnodup, get_set]
    by_cases hslot : slot = other
    · have hnone : rest.lookup other = none := by
        rw [List.lookup_eq_none_iff]
        intro entry hentry
        rw [bne_iff_ne]
        intro heq
        exact hother (List.mem_map.2 ⟨entry, hentry, heq.symm⟩)
      simp [hslot, hnone]
    · have hbeq : (slot == other) = false := beq_eq_false_iff_ne.2 hslot
      rw [if_neg hslot, List.lookup_cons, hbeq]

theorem fill_standard (hnodup : (members.map Prod.fst).Nodup) :
    standard.fill members = overridden members :=
  ext_get fun slot => by rw [get_fill hnodup, overridden, get_ofSlots]

/-! ### Reading -/

theorem finish_nil (kernel : Kernel) : finish kernel [] = .ok kernel := rfl

theorem readMembers_eq {filled : List Slot} (hne : members ≠ [])
    (hnodup : (members.map Prod.fst).Nodup) (hfilled : ∀ member ∈ members, member.1 ∉ filled) :
    readMembers kernel filled
      ([.comma].intercalate (members.map memberTokens) ++ [.rightBrace]) =
        .ok (kernel.fill members) := by
  induction members generalizing kernel filled with
  | nil => exact absurd rfl hne
  | cons member rest ih =>
    obtain ⟨slot, value⟩ := member
    obtain ⟨hfresh, hfilled⟩ := List.forall_mem_cons.1 hfilled
    obtain ⟨hslot, hnodup⟩ := List.nodup_cons.1 hnodup
    cases rest with
    | nil =>
      rw [List.map_singleton, List.intercalate_singleton, memberTokens]
      simp only [List.cons_append, List.nil_append]
      rw [readMembers]
      simp only [Slot.ofName?_name, if_neg hfresh]
      rfl
    | cons next rest =>
      have hbelow : ∀ member ∈ next :: rest, member.1 ∉ slot :: filled := by
        intro member hmember hold
        rcases List.mem_cons.1 hold with heq | hold
        · exact hslot (List.mem_map.2 ⟨member, hmember, heq⟩)
        · exact hfilled member hmember hold
      have htail : (next :: rest).map memberTokens ≠ [] := by simp
      rw [List.map_cons, List.intercalate_cons_of_ne_nil htail, memberTokens]
      simp only [List.cons_append, List.nil_append]
      rw [readMembers]
      simp only [Slot.ofName?_name, if_neg hfresh]
      exact ih (List.cons_ne_nil _ _) hnodup hbelow

theorem readItems_eq {slots : List Slot} {values : List String} (hne : values ≠ [])
    (hlength : values.length ≤ slots.length) :
    readItems kernel slots
      ([.comma].intercalate (values.map fun value => [.str value]) ++ [.rightBracket]) =
        .ok (kernel.fill (slots.zip values)) := by
  induction values generalizing kernel slots with
  | nil => exact absurd rfl hne
  | cons value rest ih =>
    cases slots with
    | nil => simp at hlength
    | cons slot slots =>
      cases rest with
      | nil =>
        rw [List.map_singleton, List.intercalate_singleton]
        simp only [List.cons_append, List.nil_append]
        rw [readItems]
        simp [finish_nil, fill]
      | cons next rest =>
        have htail : (next :: rest).map (fun value => [Token.str value]) ≠ [] := by simp
        rw [List.map_cons, List.intercalate_cons_of_ne_nil htail]
        simp only [List.cons_append, List.nil_append]
        rw [readItems]
        exact ih (List.cons_ne_nil _ _) (Nat.le_of_succ_le_succ hlength)

/-- A list of items begins as its first item does. -/
theorem exists_intercalate_append {first : Token} {item : List Token} {items : List (List Token)}
    (last : List Token) :
    ∃ tail, [.comma].intercalate ((first :: item) :: items) ++ last = first :: tail := by
  cases items with
  | nil => exact ⟨item ++ last, by simp⟩
  | cons next items =>
    exact ⟨item ++ [.comma] ++ [.comma].intercalate (next :: items) ++ last, by simp⟩

/-- An object fills slots by name, in whatever order they come. -/
theorem ofTokens_objectTokens (hnodup : (members.map Prod.fst).Nodup) :
    ofTokens (objectTokens members) = .ok (overridden members) := by
  rw [← fill_standard hnodup]
  cases members with
  | nil => rfl
  | cons member rest =>
    have hread : readMembers standard []
        ([.comma].intercalate ((member :: rest).map memberTokens) ++ [.rightBrace]) =
          .ok (standard.fill (member :: rest)) :=
      readMembers_eq (List.cons_ne_nil _ _) hnodup (by simp)
    rw [List.map_cons, memberTokens] at hread
    rw [objectTokens, List.map_cons, memberTokens]
    obtain ⟨tail, htail⟩ := exists_intercalate_append [Token.rightBrace]
    rw [htail] at hread ⊢
    exact hread

theorem map_fst_zip_isPrefix (slots : List Slot) (values : List String) :
    (slots.zip values).map Prod.fst <+: slots := by
  induction slots generalizing values with
  | nil => exact List.nil_prefix
  | cons slot slots ih =>
    cases values with
    | nil => exact List.nil_prefix
    | cons value values => exact List.cons_prefix_cons.2 ⟨rfl, ih values⟩

theorem nodup_zip_all (values : List String) : ((Slot.all.zip values).map Prod.fst).Nodup := by
  have hall : Slot.all.Nodup := by decide
  exact hall.sublist (map_fst_zip_isPrefix _ _).sublist

/-- An array fills the first slots. -/
theorem ofTokens_arrayTokens {values : List String} (hlength : values.length ≤ Slot.all.length) :
    ofTokens (arrayTokens values) = .ok (overridden (Slot.all.zip values)) := by
  rw [← fill_standard (nodup_zip_all values)]
  cases values with
  | nil => rfl
  | cons value rest =>
    have hread : readItems standard Slot.all
        ([.comma].intercalate ((value :: rest).map fun value => [.str value]) ++
          [.rightBracket]) = .ok (standard.fill (Slot.all.zip (value :: rest))) :=
      readItems_eq (List.cons_ne_nil _ _) hlength
    rw [List.map_cons] at hread
    rw [arrayTokens, List.map_cons]
    obtain ⟨tail, htail⟩ := exists_intercalate_append [Token.rightBracket]
    rw [htail] at hread ⊢
    exact hread

/-! ### Blank identifiers -/

theorem blankSlot?_eq_none_iff : kernel.blankSlot? = none ↔ kernel.IsSound := by
  rw [blankSlot?, List.find?_eq_none]
  constructor
  · intro h slot
    exact Text.isBlank_eq_false_iff.1 (eq_false_of_ne_true (h slot (Slot.mem_all slot)))
  · intro h slot _
    exact ne_true_of_eq_false (Text.isBlank_eq_false_iff.2 (h slot))

theorem blankSlot?_eq_some_iff {slot : Slot} :
    kernel.blankSlot? = some slot ↔ kernel.IsFirstBlank slot := by
  rw [blankSlot?, List.find?_eq_some_iff_append, IsFirstBlank, Text.isBlank_iff]
  constructor
  · rintro ⟨hblank, before, after, hall, hbefore⟩
    refine ⟨before, after, hall, hblank, fun earlier hearlier => ?_⟩
    exact Text.isBlank_eq_false_iff.1 (by simpa using hbefore earlier hearlier)
  · rintro ⟨before, after, hall, hblank, hbefore⟩
    refine ⟨hblank, before, after, hall, fun earlier hearlier => ?_⟩
    simpa using Text.isBlank_eq_false_iff.2 (hbefore earlier hearlier)

/-- What a text comes to whose tokens give a kernel. -/
theorem answers_ofText {text : String} (h : ofTokens (tokens text.toList) = .ok kernel) :
    Answers kernel (ofText text) := by
  cases hblank : kernel.blankSlot? with
  | none =>
    have htext : ofText text = .ok kernel := by simp only [ofText, h, hblank]
    have hsound := blankSlot?_eq_none_iff.1 hblank
    refine ⟨fun other => ?_, fun error => ?_⟩
    · rw [htext, Except.ok.injEq, and_iff_left hsound, eq_comm]
    · rw [htext]
      refine iff_of_false (by simp) ?_
      rintro ⟨slot, -, hslot⟩
      rw [← blankSlot?_eq_some_iff, hblank] at hslot
      nomatch hslot
  | some slot =>
    have htext : ofText text = .error (.blank slot) := by simp only [ofText, h, hblank]
    refine ⟨fun other => ?_, fun error => ?_⟩
    · rw [htext]
      refine iff_of_false (by simp) ?_
      rintro ⟨-, hsound⟩
      rw [← blankSlot?_eq_none_iff, hblank] at hsound
      nomatch hsound
    · rw [htext, Except.error.injEq]
      constructor
      · rintro rfl
        exact ⟨slot, rfl, blankSlot?_eq_some_iff.1 hblank⟩
      · rintro ⟨other, rfl, hother⟩
        rw [← blankSlot?_eq_some_iff, hblank] at hother
        rw [Option.some.inj hother]

theorem isSound_of_ofText {text : String} (h : ofText text = .ok kernel) : kernel.IsSound := by
  rw [ofText] at h
  split at h
  · nomatch h
  · next read _ =>
    split at h
    · nomatch h
    · next hblank =>
      rw [← Except.ok.inj h]
      exact blankSlot?_eq_none_iff.1 hblank

theorem answers_objectText (hnodup : (members.map Prod.fst).Nodup) {text : String}
    (h : IsObjectText members text) : Answers (overridden members) (ofText text) :=
  answers_ofText (h.tokens_eq ▸ ofTokens_objectTokens hnodup)

/-! ### Printing -/

/-- The members of an object as JSON. -/
def jsonMembers (members : List (Slot × String)) : Json.Object :=
  members.map fun member => (member.1.name, .str member.2)

/-- A member for each slot of a kernel. -/
def slotMembers (kernel : Kernel) : List (Slot × String) :=
  Slot.all.map fun slot => (slot, kernel.get slot)

theorem toJson_eq (kernel : Kernel) : kernel.toJson = .obj (jsonMembers kernel.slotMembers) := rfl

theorem map_fst_slotMembers (kernel : Kernel) : kernel.slotMembers.map Prod.fst = Slot.all := rfl

theorem overridden_slotMembers (kernel : Kernel) : overridden kernel.slotMembers = kernel := by
  refine ext_get fun slot => ?_
  rw [overridden, get_ofSlots]
  cases slot <;> rfl

theorem spellsAll_compactMembers (members : List (Slot × String)) :
    List.Forall₂ (fun text list => SpellsAll text.toList list)
      (Json.compactMembers (jsonMembers members)) (members.map memberTokens) := by
  induction members with
  | nil => exact .nil
  | cons member rest ih =>
    refine .cons ?_ ih
    rw [String.toList_append, String.toList_append]
    exact ((spells_quoted _).all.append Spells.colon.all).append (spells_quoted _).all

theorem spellsAll_memberLines (level : Nat) (members : List (Slot × String)) :
    List.Forall₂ (fun text list => SpellsAll text.toList list)
      (Json.memberLines level (jsonMembers members)) (members.map memberTokens) := by
  have hblank : SpellsAll [' '] [] := .nil (List.forall_mem_singleton.2 rfl)
  have hcolon : SpellsAll ": ".toList [.colon] := Spells.colon.all.append hblank
  induction members with
  | nil => exact .nil
  | cons member rest ih =>
    refine .cons ?_ ih
    rw [String.toList_append, String.toList_append]
    exact ((spells_quoted _).all.append hcolon).append (spells_quoted _).all

/-- Printed objects are object texts, in the order of their members. -/
theorem isObjectText_compact (members : List (Slot × String)) :
    IsObjectText members (Json.obj (jsonMembers members)).compact := by
  have hcomma : SpellsAll ",".toList [.comma] := Spells.comma.all
  have hmembers := spellsAll_intercalate hcomma (spellsAll_compactMembers members)
  rw [IsObjectText, Json.compact, String.toList_append, String.toList_append]
  exact (Spells.leftBrace.all.append hmembers).append Spells.rightBrace.all

theorem isObjectText_indented (members : List (Slot × String)) :
    IsObjectText members (Json.obj (jsonMembers members)).indented := by
  have hlines := spellsAll_memberLines 1 members
  rw [IsObjectText, Json.indented, Json.indentedAt, Json.bracketed]
  split
  · next hempty =>
    rw [List.isEmpty_iff] at hempty
    rw [hempty] at hlines
    have hnone : members.map memberTokens = [] := List.forall₂_nil_left_iff.1 hlines
    rw [objectTokens, hnone]
    exact Spells.leftBrace.all.append Spells.rightBrace.all
  · have hseparator : SpellsAll ("," ++ Json.newLine 1).toList [.comma] := by
      rw [String.toList_append]
      exact Spells.comma.all.append (spellsAll_newLine 1)
    have hmembers := spellsAll_intercalate hseparator hlines
    simp only [String.toList_append]
    have hleft := Spells.leftBrace.all.append (spellsAll_newLine 1)
    have hright := (spellsAll_newLine 0).append Spells.rightBrace.all
    have hwhole := (hleft.append hmembers).append hright
    rw [List.append_assoc] at hwhole ⊢
    exact hwhole

/-- The reading of kernels in every shape that a text may have. An object gives
the standard kernel with its members, an array the same as the object for the
first slots, a blank identifier never gets through, and the text of a kernel
without blanks is read back. -/
theorem ofText_exact :
    (∀ (members : List (Slot × String)) (text : String), (members.map Prod.fst).Nodup →
      IsObjectText members text → Answers (overridden members) (ofText text)) ∧
    (∀ (values : List String) (array : String), values.length ≤ 6 → IsArrayText values array →
      Answers (overridden (Slot.all.zip values)) (ofText array) ∧
        ∀ object, IsObjectText (Slot.all.zip values) object → ofText array = ofText object) ∧
    (∀ (text : String) (kernel : Kernel), ofText text = .ok kernel → kernel.IsSound) ∧
    (∀ kernel : Kernel, kernel.IsSound →
      ofText kernel.toJson.compact = .ok kernel ∧ ofText kernel.toJson.indented = .ok kernel) := by
  refine ⟨fun members text hnodup h => answers_objectText hnodup h, ?_,
    fun text kernel => isSound_of_ofText, ?_⟩
  · intro values array hlength harray
    have htokens := ofTokens_arrayTokens hlength
    refine ⟨answers_ofText (harray.tokens_eq ▸ htokens), fun object hobject => ?_⟩
    rw [ofText, ofText, harray.tokens_eq, hobject.tokens_eq, htokens,
      ofTokens_objectTokens (nodup_zip_all values)]
  · intro kernel hsound
    have hread : ∀ text, IsObjectText kernel.slotMembers text → ofText text = .ok kernel := by
      intro text h
      have hanswers := answers_objectText (by rw [map_fst_slotMembers]; decide) h
      rw [overridden_slotMembers] at hanswers
      exact (hanswers.eq_ok_iff kernel).2 ⟨rfl, hsound⟩
    rw [toJson_eq]
    exact ⟨hread _ (isObjectText_compact _), hread _ (isObjectText_indented _)⟩

/-- An object whose one identifier is a tab behind an escape, an array for the
first two slots, and the text of the standard kernel. -/
theorem ofText_exact_blankBucket :
    let object := " \x7b\"bucket\" : \"\\u0009\"\x7d"
    let array := "[\"t\", \"d\"]"
    (([(Slot.bucket, "\t")].map Prod.fst).Nodup ∧ IsObjectText [(.bucket, "\t")] object ∧
      Answers (overridden [(.bucket, "\t")]) (ofText object)) ∧
    (["t", "d"].length ≤ 6 ∧ IsArrayText ["t", "d"] array ∧
      Answers (overridden (Slot.all.zip ["t", "d"])) (ofText array)) ∧
    (ofText standard.toJson.compact = .ok standard ∧ standard.IsSound) := by
  intro object array
  have hblank : ∀ c ∈ [' '], isBlankChar c = true := List.forall_mem_singleton.2 rfl
  have hobject : IsObjectText [(.bucket, "\t")] object := by
    have hname : SpellsAll "\"bucket\"".toList [.str "bucket"] := (spells_quoted "bucket").all
    have hcode : codeUnit? '0' '0' '0' '9' = some 9 := rfl
    have hvalue : SpellsChars ['\\', 'u', '0', '0', '0', '9'] "\t".toList :=
      SpellsChars.numbered hcode rfl rfl .nil
    have hlast := SpellsAll.cons hblank (.str hvalue) Spells.rightBrace.all
    have hwhole := SpellsAll.cons hblank .leftBrace (hname.append (.cons hblank .colon hlast))
    have htext : object.toList = [' '] ++ (['\x7b'] ++ ("\"bucket\"".toList ++ ([' '] ++ ([':'] ++
        ([' '] ++ ('"' :: ['\\', 'u', '0', '0', '0', '9'] ++ ['"'] ++ ['\x7d'])))))) := by
      decide
    rw [IsObjectText, htext]
    exact hwhole
  have harray : IsArrayText ["t", "d"] array := by
    have hfirst : SpellsAll "\"t\"".toList [.str "t"] := (spells_quoted "t").all
    have hsecond : Spells "\"d\"".toList (.str "d") := spells_quoted "d"
    have hlast := Spells.comma.all.append (.cons hblank hsecond Spells.rightBracket.all)
    have hwhole := Spells.leftBracket.all.append (hfirst.append hlast)
    have htokens : arrayTokens ["t", "d"] =
        [.leftBracket, .str "t", .comma, .str "d", .rightBracket] := by
      simp [arrayTokens]
    have htext : array.toList =
        ['['] ++ ("\"t\"".toList ++ ([','] ++ ([' '] ++ ("\"d\"".toList ++ [']'])))) := by
      decide
    rw [IsArrayText, htext, htokens]
    exact hwhole
  obtain ⟨hobjects, harrays, hreturned, hprinted⟩ := ofText_exact
  have hread := (hprinted standard (blankSlot?_eq_none_iff.1 (by decide))).1
  exact ⟨⟨by decide, hobject, hobjects _ _ (by decide) hobject⟩,
    ⟨by decide, harray, (harrays _ _ (by decide) harray).1⟩, hread, hreturned _ _ hread⟩

end DocumentViews.Kernel

import Mathlib
import DocumentViews.Sql.DocumentPath

/-!
Paths of the SQL path language, read step by step: `$` for the document, then
members, bare or between double quotes, and `[*]` for all elements. The path
that is written for some collections and a key reads as the steps through
them, whatever characters the keys hold, so no two targets share a path.
-/

namespace DocumentViews.Sql

inductive PathStep where
  | member (key : String)
  /-- All elements of a collection. -/
  | elements
  deriving DecidableEq

namespace PathStep

/-- What a character means behind a backslash. Escapes by number are not read. -/
def unescaped? (c : Char) : Option Char :=
  if c = 'b' then some '\x08'
  else if c = 'f' then some '\x0c'
  else if c = 'n' then some '\n'
  else if c = 'r' then some '\r'
  else if c = 't' then some '\t'
  else if c = 'v' then some '\x0b'
  else if c = 'u' ∨ c = 'x' then none
  else some c

/-- The member name up to the quote that ends it, and the text after it. -/
def readQuoted : List Char → Option (List Char × List Char)
  | [] => none
  | '\\' :: c :: rest =>
    (unescaped? c).bind fun d => (readQuoted rest).map (Prod.map (d :: ·) id)
  | c :: rest =>
    if c = '"' then some ([], rest) else (readQuoted rest).map (Prod.map (c :: ·) id)

/-- Reads a step, and returns the text after it, too. -/
def read : List Char → Option (PathStep × List Char)
  | '[' :: '*' :: ']' :: rest => some (elements, rest)
  | '.' :: c :: rest =>
    if c = '"' then (readQuoted rest).map (Prod.map (member ∘ String.ofList) id)
    else if startsWord c then
      some (member (String.ofList (c :: rest.takeWhile continuesWord)),
        rest.dropWhile continuesWord)
    else none
  | _ => none

theorem readQuoted_length {text key rest : List Char} (h : readQuoted text = some (key, rest)) :
    rest.length ≤ text.length := by
  fun_induction readQuoted text generalizing key rest with
  | case1 => simp at h
  | case2 c more ih =>
    obtain ⟨d, -, hmap⟩ := Option.bind_eq_some_iff.1 h
    obtain ⟨⟨inside, after⟩, hread, heq⟩ := Option.map_eq_some_iff.1 hmap
    obtain ⟨-, rfl⟩ := Prod.mk.inj heq
    have := ih hread
    simp only [List.length_cons, id_eq]
    omega
  | case3 c more =>
    obtain ⟨-, rfl⟩ := Prod.mk.inj (Option.some.inj h)
    simp
  | case4 c more _ _ ih =>
    obtain ⟨⟨inside, after⟩, hread, heq⟩ := Option.map_eq_some_iff.1 h
    obtain ⟨-, rfl⟩ := Prod.mk.inj heq
    have := ih hread
    simp only [List.length_cons, id_eq]
    omega

theorem read_length {text rest : List Char} {step : PathStep} (h : read text = some (step, rest)) :
    rest.length < text.length := by
  unfold read at h
  split at h
  · obtain ⟨-, rfl⟩ := Prod.mk.inj (Option.some.inj h)
    simp only [List.length_cons]
    omega
  · next c more =>
    split at h
    · obtain ⟨⟨key, after⟩, hread, heq⟩ := Option.map_eq_some_iff.1 h
      obtain ⟨-, rfl⟩ := Prod.mk.inj heq
      have := readQuoted_length hread
      simp only [List.length_cons, id_eq]
      omega
    split at h
    · obtain ⟨-, rfl⟩ := Prod.mk.inj (Option.some.inj h)
      have := (List.dropWhile_sublist (l := more) continuesWord).length_le
      simp only [List.length_cons]
      omega
    · simp at h
  · simp at h

end PathStep

/-- The steps of a path behind its start. -/
def readSteps (text : List Char) : Option (List PathStep) :=
  if text.isEmpty then some []
  else
    match hread : PathStep.read text with
    | none => none
    | some (step, rest) =>
      have := PathStep.read_length hread
      (readSteps rest).map (step :: ·)
termination_by text.length

/-- The steps of a path. -/
def readPath : List Char → Option (List PathStep)
  | '$' :: rest => readSteps rest
  | _ => none

theorem readSteps_nil : readSteps [] = some [] := by
  rw [readSteps]
  rfl

theorem readSteps_of_read {text rest : List Char} {step : PathStep}
    (h : PathStep.read text = some (step, rest)) :
    readSteps text = (readSteps rest).map (step :: ·) := by
  have hnil : text ≠ [] := by
    rintro rfl
    simp [PathStep.read] at h
  rw [readSteps, if_neg (by simpa using hnil)]
  split
  · next hnone => rw [h] at hnone; simp at hnone
  · next other after hsome =>
    rw [h] at hsome
    obtain ⟨rfl, rfl⟩ := Prod.mk.inj (Option.some.inj hsome)
    rfl

namespace PathStep

/-- A text that a bare member does not go on with. -/
def EndsWord (rest : List Char) : Prop :=
  ∀ c ∈ rest.head?, continuesWord c = false

theorem readQuoted_escaped (key rest : List Char) :
    readQuoted (escaped key ++ '"' :: rest) = some (key, rest) := by
  induction key with
  | nil => simp [escaped, readQuoted]
  | cons c key ih =>
    rw [escaped]
    split
    · next hc =>
      have hself : unescaped? c = some c := by
        rcases hc with rfl | rfl
        · decide
        · decide
      simp [readQuoted, hself, ih]
    · next hc =>
      rw [not_or] at hc
      rw [List.cons_append, readQuoted.eq_def]
      split
      · simp at *
      · next heq => exact absurd (List.cons.inj heq).1 hc.2
      · next heq =>
        obtain ⟨rfl, rfl⟩ := List.cons.inj heq
        rw [if_neg hc.1, ih]
        rfl

theorem read_bare {key rest : List Char} (hword : isWord key = true) (hrest : EndsWord rest) :
    read ('.' :: (key ++ rest)) = some (member (String.ofList key), rest) := by
  cases key with
  | nil => simp [isWord] at hword
  | cons c key =>
    rw [isWord, Bool.and_eq_true, List.all_eq_true] at hword
    obtain ⟨hc, hkey⟩ := hword
    have hquote : c ≠ '"' := by
      rintro rfl
      revert hc
      decide
    have hstop : rest.takeWhile continuesWord = [] ∧ rest.dropWhile continuesWord = rest := by
      cases rest with
      | nil => exact ⟨rfl, rfl⟩
      | cons d more =>
        have hd := hrest d rfl
        simp [hd]
    rw [List.cons_append, read, if_neg hquote, if_pos hc, List.takeWhile_append_of_pos hkey,
      List.dropWhile_append_of_pos hkey, hstop.1, hstop.2, List.append_nil]

/-- A member is read back, however its name is written. -/
theorem read_memberName (key : String) {rest : List Char} (hrest : EndsWord rest) :
    read ('.' :: ((memberName key).toList ++ rest)) = some (member key, rest) := by
  unfold memberName
  split
  · next hword =>
    rw [read_bare hword hrest, String.ofList_toList]
  · have hquoted := readQuoted_escaped key.toList rest
    have hsplit : (String.ofList ('"' :: escaped key.toList ++ ['"'])).toList ++ rest =
        '"' :: (escaped key.toList ++ '"' :: rest) := by
      simp
    rw [hsplit, read, if_pos rfl, hquoted]
    simp

end PathStep

open PathStep

/-- The steps through the elements of collections and to a member. -/
def pathSteps (collections : List String) (key : Option String) : List PathStep :=
  collections.flatMap (fun collection => [member collection, elements]) ++
    key.toList.map member

theorem readSteps_memberName (key : String) {rest : List Char} (hrest : EndsWord rest) :
    readSteps (("." ++ memberName key).toList ++ rest) =
      (readSteps rest).map (member key :: ·) := by
  have hsplit : ("." ++ memberName key).toList ++ rest =
      '.' :: ((memberName key).toList ++ rest) := by
    simp
  rw [hsplit]
  exact readSteps_of_read (read_memberName key hrest)

theorem readSteps_collection (collection : String) (rest : List Char) :
    readSteps (("." ++ memberName collection ++ "[*]").toList ++ rest) =
      (readSteps rest).map ([member collection, elements] ++ ·) := by
  have hbracket : EndsWord ("[*]".toList ++ rest) := by
    intro c hc
    obtain rfl : '[' = c := by simpa using hc
    decide
  have helements : readSteps ("[*]".toList ++ rest) = (readSteps rest).map (elements :: ·) :=
    readSteps_of_read rfl
  rw [String.toList_append, List.append_assoc, readSteps_memberName collection hbracket,
    helements, Option.map_map]
  rfl

theorem readSteps_collections (collections : List String) (rest : List Char) :
    readSteps ((String.join (collections.map fun collection =>
        "." ++ memberName collection ++ "[*]")).toList ++ rest) =
      (readSteps rest).map
        (collections.flatMap (fun collection => [member collection, elements]) ++ ·) := by
  induction collections with
  | nil => simp
  | cons collection collections ih =>
    rw [List.map_cons, String.join_cons, String.toList_append, List.append_assoc,
      readSteps_collection, ih, Option.map_map]
    rfl

/-- A written path reads as its steps. -/
theorem readPath_documentPath (collections : List String) (key : Option String) :
    readPath (documentPath collections key).toList = some (pathSteps collections key) := by
  have hstart : ∀ last : String, readPath ("$" ++ String.join (collections.map fun collection =>
        "." ++ memberName collection ++ "[*]") ++ last).toList =
      (readSteps last.toList).map
        (collections.flatMap (fun collection => [member collection, elements]) ++ ·) := by
    intro last
    rw [String.toList_append, String.toList_append, List.append_assoc]
    exact readSteps_collections collections last.toList
  cases key with
  | none =>
    have hlast : readSteps "".toList = some [] := readSteps_nil
    exact (hstart "").trans (by rw [hlast]; rfl)
  | some key =>
    have hend : EndsWord [] := by
      intro c hc
      simp at hc
    have hlast := readSteps_memberName key hend
    rw [List.append_nil, readSteps_nil] at hlast
    exact (hstart ("." ++ memberName key)).trans (by rw [hlast]; rfl)

/-- The steps tell the collections and the key. -/
theorem pathSteps_inj {collections others : List String} {key other : Option String}
    (h : pathSteps collections key = pathSteps others other) :
    collections = others ∧ key = other := by
  have hshort : ∀ (target : Option String) (collection : String) (rest : List PathStep),
      target.toList.map member ≠ member collection :: elements :: rest := by
    intro target collection rest heq
    cases target with
    | none => simp at heq
    | some k => simp at heq
  induction collections generalizing others with
  | nil =>
    cases others with
    | nil =>
      refine ⟨rfl, ?_⟩
      cases key <;> cases other <;> simp_all [pathSteps]
    | cons collection others => exact absurd h (hshort key collection _)
  | cons collection collections ih =>
    cases others with
    | nil => exact absurd h.symm (hshort other collection _)
    | cons second others =>
      simp only [pathSteps, List.flatMap_cons, List.cons_append, List.nil_append,
        List.cons.injEq, member.injEq, true_and] at h
      obtain ⟨rfl, hrest⟩ := h
      obtain ⟨rfl, hkey⟩ := ih hrest
      exact ⟨rfl, hkey⟩

end DocumentViews.Sql

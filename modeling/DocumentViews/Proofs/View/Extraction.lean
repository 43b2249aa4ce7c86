import Mathlib
import DocumentViews.Proofs.Sql.PathReading
import DocumentViews.Proofs.View.Statement

/-!
The paths that extractions take values from. The path of a column inside a
nested table is the second argument of a call, a literal that is unquoted with
the lexemes of the text and then read step by step. It leads through the
elements of the collections of the table to the key of the column, whatever
characters the keys hold, so columns of different keys have different paths.
-/

namespace DocumentViews.View

open Sql

/-- The path in a call that takes values from a column of a table. -/
def pathArgument? : List Lexeme → Option String
  | .word function :: .mark '(' :: _ :: .mark '.' :: _ :: .mark ',' :: .literal path ::
      .mark ')' :: _ => if function = "jsonb_path_query" then some path else none
  | _ => none

/-- The steps of the path that an expression takes values from. -/
def pathOf? (expression : String) : Option (List PathStep) :=
  (pathArgument? (lexemes expression.toList)).bind fun path => readPath path.toList

variable (kernel : Kernel) {column : Column}

theorem pathArgument?_extraction (h : column.parentPath ≠ []) :
    pathArgument? (lexemes (extraction kernel column).toList) =
      some (documentPath column.keyPath column.key) := by
  rw [(spellsApart_extraction kernel column).lexemes_eq, Template.extraction,
    if_neg (by simpa using h)]
  rfl

/-- The path of a column inside a nested table. -/
theorem pathOf?_extraction (h : column.parentPath ≠ []) :
    pathOf? (extraction kernel column) = some (pathSteps column.keyPath column.key) := by
  rw [pathOf?, pathArgument?_extraction kernel h, Option.bind_some, readPath_documentPath]

/-- A column of the root table has no path. -/
theorem pathOf?_extraction_of_nil (h : column.parentPath = []) :
    pathOf? (extraction kernel column) = none := by
  have hsource : ∀ slots, pathArgument?
      ((Template.source kernel kernel.data ++ slots).map Slot.lexeme) = none := by
    intro slots
    simp only [Template.source, Slot.lexeme, nameLexeme, List.cons_append, List.map_cons]
    split
    · rfl
    · rfl
  rw [pathOf?, (spellsApart_extraction kernel column).lexemes_eq, Template.extraction,
    if_pos (by simp [h])]
  cases column.key with
  | none => rw [hsource, Option.bind_none]
  | some key => rw [hsource, Option.bind_none]

/-- The path of a column inside a nested table is read back from both layers of
quotes: it leads through the elements of its collections to its key. Columns
with other collections or another key have another path. -/
theorem extraction_decodes (h : column.parentPath ≠ []) :
    pathOf? (extraction kernel column) = some (pathSteps column.keyPath column.key) ∧
      ∀ (other : Column) (otherKernel : Kernel), other.parentPath ≠ [] →
        (other.keyPath, other.key) ≠ (column.keyPath, column.key) →
          pathArgument? (lexemes (extraction otherKernel other).toList) ≠
            pathArgument? (lexemes (extraction kernel column).toList) := by
  refine ⟨pathOf?_extraction kernel h, fun other otherKernel hother hne hsame => hne ?_⟩
  have hsteps : pathSteps other.keyPath other.key = pathSteps column.keyPath column.key := by
    apply Option.some.inj
    rw [← pathOf?_extraction otherKernel hother, ← pathOf?_extraction kernel h, pathOf?, pathOf?,
      hsame]
  obtain ⟨hkeys, hkey⟩ := pathSteps_inj hsteps
  exact Prod.ext hkeys hkey

/-- A column whose keys hold quotes of both kinds, backslashes and what looks
like steps. -/
def quotedColumn : Column :=
  ⟨"c", "x", .string, some "a.b[*]", ["roots", "as"], ["it's", "back\\slash\"", ""]⟩

/-- A column whose only key is spelled like the path of the other one. -/
def spelledColumn : Column :=
  ⟨"d", "x", .string, some "it's[*].back\\slash\"[*].[*].a.b[*]", ["roots"], []⟩

theorem extraction_decodes_quotedColumn :
    quotedColumn.parentPath ≠ [] ∧ spelledColumn.parentPath ≠ [] ∧
      pathOf? (extraction Kernel.standard quotedColumn) =
        some [.member "it's", .elements, .member "back\\slash\"", .elements, .member "", .elements,
          .member "a.b[*]"] ∧
      pathArgument? (lexemes (extraction Kernel.standard spelledColumn).toList) ≠
        pathArgument? (lexemes (extraction Kernel.standard quotedColumn).toList) := by
  have hquoted : quotedColumn.parentPath ≠ [] := by simp [quotedColumn]
  have hspelled : spelledColumn.parentPath ≠ [] := by simp [spelledColumn]
  obtain ⟨hpath, hother⟩ := extraction_decodes Kernel.standard hquoted
  exact ⟨hquoted, hspelled, hpath, hother spelledColumn Kernel.standard hspelled (by decide)⟩

end DocumentViews.View

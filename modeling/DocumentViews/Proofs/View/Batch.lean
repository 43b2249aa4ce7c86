import Mathlib
import DocumentViews.View.Batch

/-!
What a batch holds. Each table is compiled on its own, so the views and the
failures of a batch are those of its tables and nothing else.
-/

namespace DocumentViews.View

variable {settings : Settings} {table : Table} {tables : List Table}

theorem compile_eq_ok_iff {view : Compiled} : compile settings table = .ok view ↔
    view.tableId = table.id ∧ view.name = table.name ∧ create settings table = .ok view.sql := by
  obtain ⟨id, name, sql⟩ := view
  rw [compile]
  cases create settings table with
  | error error => simp
  | ok created => simp [eq_comm]

theorem compile_eq_error_iff {failure : Failure} : compile settings table = .error failure ↔
    failure.name = table.name ∧ create settings table = .error failure.error := by
  obtain ⟨name, error⟩ := failure
  rw [compile]
  cases create settings table with
  | error found => simp [eq_comm]
  | ok sql => simp

namespace Batch

theorem mem_views_iff {view : Compiled} : view ∈ (ofTables settings tables).views ↔
    ∃ table ∈ tables, compile settings table = .ok view := by
  induction tables with
  | nil => simp [ofTables]
  | cons first rest ih =>
    rw [ofTables]
    cases hcompile : compile settings first with
    | error failure => simp [ih, hcompile]
    | ok found => simp [ih, hcompile, eq_comm]

theorem mem_failures_iff {failure : Failure} : failure ∈ (ofTables settings tables).failures ↔
    ∃ table ∈ tables, compile settings table = .error failure := by
  induction tables with
  | nil => simp [ofTables]
  | cons first rest ih =>
    rw [ofTables]
    cases hcompile : compile settings first with
    | error found => simp [ih, hcompile, eq_comm]
    | ok view => simp [ih, hcompile]

/-- Every statement of a batch creates the view of some table. -/
theorem exists_create_of_mem_views {view : Compiled} (h : view ∈ (ofTables settings tables).views) :
    ∃ table ∈ tables, create settings table = .ok view.sql := by
  obtain ⟨table, hin, hcompile⟩ := mem_views_iff.1 h
  exact ⟨table, hin, (compile_eq_ok_iff.1 hcompile).2.2⟩

/-- Every failure of a batch is that of some table and names it. -/
theorem exists_create_of_mem_failures {failure : Failure}
    (h : failure ∈ (ofTables settings tables).failures) :
    ∃ table ∈ tables, failure.name = table.name ∧ create settings table = .error failure.error := by
  obtain ⟨table, hin, hcompile⟩ := mem_failures_iff.1 h
  exact ⟨table, hin, compile_eq_error_iff.1 hcompile⟩

/-- A table that has no statement leaves a failure under its name. -/
theorem exists_failure_of_create (hin : table ∈ tables) {error : Error}
    (h : create settings table = .error error) :
    ∃ failure ∈ (ofTables settings tables).failures, failure.name = table.name := by
  have hcompile : compile settings table = .error ⟨table.name, error⟩ :=
    compile_eq_error_iff.2 ⟨rfl, h⟩
  exact ⟨_, mem_failures_iff.2 ⟨table, hin, hcompile⟩, rfl⟩

/-- In a batch without failures every table has its view. -/
theorem exists_view (h : (ofTables settings tables).failures = []) :
    ∀ table ∈ tables, ∃ view ∈ (ofTables settings tables).views, view.tableId = table.id := by
  intro table hin
  cases hcompile : compile settings table with
  | error failure =>
    have hfailure := mem_failures_iff.2 ⟨table, hin, hcompile⟩
    rw [h] at hfailure
    exact absurd hfailure List.not_mem_nil
  | ok view =>
    exact ⟨view, mem_views_iff.2 ⟨table, hin, hcompile⟩, (compile_eq_ok_iff.1 hcompile).1⟩

theorem failures_eq_nil_iff : (ofTables settings tables).failures = [] ↔
    ∀ table ∈ tables, ∃ sql, create settings table = .ok sql := by
  constructor
  · intro hnone table hin
    cases hcreate : create settings table with
    | error error =>
      obtain ⟨failure, hfailure, -⟩ := exists_failure_of_create hin hcreate
      rw [hnone] at hfailure
      exact absurd hfailure List.not_mem_nil
    | ok sql => exact ⟨sql, rfl⟩
  · intro hall
    apply List.eq_nil_iff_forall_not_mem.2
    intro failure hfailure
    obtain ⟨table, hin, -, herror⟩ := exists_create_of_mem_failures hfailure
    obtain ⟨sql, hsql⟩ := hall table hin
    rw [hsql] at herror
    nomatch herror

/-- A batch has a failure when a table has no statement. -/
theorem isComplete_eq_false_iff : (ofTables settings tables).isComplete = false ↔
    ∃ table ∈ tables, ∃ error, create settings table = .error error := by
  rw [isComplete, ← Bool.not_eq_true, List.isEmpty_iff, failures_eq_nil_iff]
  push Not
  refine exists_congr fun table => and_congr_right fun _ => ?_
  cases hcreate : create settings table with
  | error error => simp
  | ok sql => simp

end Batch

end DocumentViews.View

import DocumentViews.Plan.OfGraph
import DocumentViews.View.Statement

/-!
Batches of views. A table that has no view is set aside as a failure and does
not keep the others from theirs. Views and failures stand in the order of the
tables.
-/

namespace DocumentViews.View

structure Compiled where
  tableId : String
  name : String
  sql : String

structure Failure where
  name : String
  error : Error

structure Batch where
  views : List Compiled
  failures : List Failure

/-- The view of a table, or its failure. -/
def compile (settings : Settings) (table : Table) : Except Failure Compiled :=
  match create settings table with
  | .ok sql => .ok ⟨table.id, table.name, sql⟩
  | .error error => .error ⟨table.name, error⟩

namespace Batch

def ofTables (settings : Settings) : List Table → Batch
  | [] => ⟨[], []⟩
  | table :: rest =>
    let batch := ofTables settings rest
    match compile settings table with
    | .ok view => { batch with views := view :: batch.views }
    | .error failure => { batch with failures := failure :: batch.failures }

/-- Whether every table has its view. -/
def isComplete (batch : Batch) : Bool :=
  batch.failures.isEmpty

/-- The statements, each with a line end, and blank lines between them. -/
def sql (batch : Batch) : String :=
  String.intercalate "\n" (batch.views.map fun view => view.sql ++ "\n")

end Batch

/-- A plan and the views of its tables. -/
structure CompiledPlan where
  plan : Plan
  views : Batch

/-- Plans a graph and compiles its tables. -/
def compileGraph (settings : Settings) (graph : Graph) : Except PlanError CompiledPlan :=
  graph.plan.map fun plan => ⟨plan, Batch.ofTables settings plan.tables⟩

end DocumentViews.View

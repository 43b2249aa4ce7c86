import DocumentViews.Text.Visible
import DocumentViews.View.Batch

/-!
The report on a compiled plan, in Markdown: its sizes, a row for each planned
table, the relationships and the failures. A table counts as failed when a
failure bears its name.
-/

namespace DocumentViews.Report

open View

def isFailed (compiled : CompiledPlan) (table : Table) : Bool :=
  compiled.views.failures.any (·.name == table.name)

def status (compiled : CompiledPlan) (table : Table) : String :=
  if isFailed compiled table then "failed" else "ok"

def pathText (path : List String) : String :=
  if path.isEmpty then "-" else String.intercalate " > " path

/-- The row of a planned table. -/
def row (compiled : CompiledPlan) (table : Table) : String :=
  "| " ++ String.intercalate " | "
    [table.name, table.entity, toString table.columns.length, pathText table.parentPath,
      status compiled table] ++ " |"

/-- A headed list of lines, which is left out when it is empty. -/
def listing (heading : String) (lines : List String) : List String :=
  if lines.isEmpty then [] else "" :: ("## " ++ heading) :: "" :: lines

def relationshipLine (relationship : Relationship) : String :=
  "- " ++ Text.ticked relationship.parent.name ++ " contains " ++
    Text.ticked relationship.child.name

def failureLine (failure : Failure) : String :=
  "- **" ++ failure.name ++ "**: " ++ failure.error.message

def sizes (graph : Graph) (plan : Plan) : String :=
  "System " ++ Text.ticked plan.graphName ++ ": " ++ toString graph.nodes.length ++ " nodes, " ++
    toString graph.edges.length ++ " edges, " ++ toString plan.tables.length ++ " tables, " ++
    toString plan.relationships.length ++ " relationships."

def lines (graph : Graph) (compiled : CompiledPlan) : List String :=
  ["# schema2view Report", "", sizes graph compiled.plan, "", "## Views", "",
    "| View | Bucket | Columns | Path | Status |", "|------|--------|---------|------|--------|"] ++
  compiled.plan.tables.map (row compiled) ++
  listing "Relationships" (compiled.plan.relationships.map relationshipLine) ++
  listing "Failures" (compiled.views.failures.map failureLine)

def text (graph : Graph) (compiled : CompiledPlan) : String :=
  String.intercalate "\n" (lines graph compiled) ++ "\n"

end DocumentViews.Report

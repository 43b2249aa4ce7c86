import DocumentViews.Graph.Adjacency
import DocumentViews.Report

/-!
The four artifacts of a compiled plan: the statements of its views, its
relationships, the adjacency of the graph, and the report.
-/

namespace DocumentViews.Artifact

open View

/-- The note on a table without a view. -/
def skippedNote (failure : Failure) : String :=
  "\n-- skipped " ++ failure.name ++ ": " ++ failure.error.message ++ "\n"

/-- A header, the statements, and a note for each failure. -/
def viewsText (compiled : CompiledPlan) : String :=
  "-- views for system '" ++ compiled.plan.graphName ++ "'\n\n" ++ compiled.views.sql ++
    String.join (compiled.views.failures.map skippedNote)

/-- Items as an indented JSON array with a line end. -/
def arrayText (items : List Json) : String :=
  (Json.arr items).indented ++ "\n"

/-- The artifacts in the order of their writing, each with the ending of its
name. -/
def all (graph : Graph) (compiled : CompiledPlan) : List (String × String) :=
  [("views.sql", viewsText compiled),
    ("relationships.json", arrayText (compiled.plan.relationships.map Relationship.toJson)),
    ("graph.json", arrayText (graph.adjacencyRecords.map AdjacencyRecord.toJson)),
    ("report.md", Report.text graph compiled)]

end DocumentViews.Artifact

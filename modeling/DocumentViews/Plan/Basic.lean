import DocumentViews.Json.Basic
import DocumentViews.Plan.Table

/-!
Relational plans: tables in order, one for each identifier, and the
relationships between a table and those nested in it.
-/

namespace DocumentViews

/-- A table as a relationship names it. -/
structure TableRef where
  id : String
  name : String

structure Relationship where
  parent : TableRef
  child : TableRef

structure Plan where
  /-- The name of the planned graph. -/
  graphName : String
  tables : List Table
  relationships : List Relationship

def TableRef.toJson (ref : TableRef) : Json :=
  .obj [("id", .str ref.id), ("name", .str ref.name)]

/-- The relationship as a JSON object, the enclosing table first. -/
def Relationship.toJson (relationship : Relationship) : Json :=
  .obj [("super", relationship.parent.toJson), ("sub", relationship.child.toJson)]

/-- Merges a table into a list of tables. The table of an identifier keeps its
place, and a later one takes the place if it is better. -/
def mergeTable (table : Table) : List Table → List Table
  | [] => [table]
  | other :: rest =>
    if other.id = table.id then (if table.betters other then table else other) :: rest
    else other :: mergeTable table rest

namespace Plan

def empty (graphName : String) : Plan :=
  ⟨graphName, [], []⟩

def merge (plan : Plan) (table : Table) : Plan :=
  { plan with tables := mergeTable table plan.tables }

def table? (plan : Plan) (id : String) : Option Table :=
  plan.tables.find? (·.id == id)

/-- Appends a column to the table of an identifier. -/
def pushColumn (plan : Plan) (id : String) (column : Column) : Plan :=
  { plan with
    tables := plan.tables.map fun table => if table.id = id then table.push column else table }

end Plan

end DocumentViews

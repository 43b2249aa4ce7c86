import DocumentViews.Graph.Ancestry
import DocumentViews.Graph.Layer
import DocumentViews.Plan.Basic
import DocumentViews.Plan.Error

/-!
The plan of a graph. The root becomes a table, and so does every promoted
node: one that was discovered and discovers others in the breadth-first search
from the root, or an entity with children all of which were discovered
elsewhere. A table has the components among its node's children as columns,
unless they are promoted themselves, and a relationship with each parent.
-/

namespace DocumentViews

/-- The column that a component gives to a table. An entity gives none. -/
def Node.column? (node : Node) (table : Table) : Option Column :=
  node.kind.fieldType?.map fun type =>
    ⟨node.id, node.name, type, node.key, table.parentPath, table.keyPath⟩

def Table.attach (table : Table) (node : Node) : Table :=
  match node.column? table with
  | none => table
  | some column => table.push column

namespace Graph

/-- What a breadth-first search discovers from the root. A root that discovers
nothing is listed too. -/
def discoveries (graph : Graph) (root : Nat) : Discoveries :=
  let found := graph.successors root none .breadth
  if found.isEmpty then [(root, [])] else found

/-- The nodes that become tables of their own. -/
def promoted (graph : Graph) (root : Nat) : List Nat :=
  let split := (graph.discoveries root).split
  split.inner ++ split.outer.filter fun index =>
    index ≠ root ∧ (graph.node? index).any Node.isEntity ∧ graph.children index ≠ []

/-- Fills a table with the columns among the children of a node. -/
def fillTable (graph : Graph) (promoted : List Nat) (index : Nat) (table : Table) : Table :=
  let columns := ((graph.children index).filter (· ∉ promoted)).filterMap graph.node?
  columns.foldl Table.attach table

def tableRef (node : Node) : TableRef :=
  ⟨node.id, node.name⟩

/-- What keeps a promoted node from being planned. -/
def misfit? (graph : Graph) (discoveries : Discoveries) (index : Nat) : Option Misfit :=
  let children := graph.children index
  if graph.parents index = [] then some .noParents
  else if children = [] then some .noChildren
  else if ((Listing.find? discoveries index).getD []).any (· ∉ children) then some .foreignChild
  else none

/-- Adds the table and the relationships of a promoted node to a plan. -/
def planNode (graph : Graph) (promoted : List Nat) (plan : Plan) (index : Nat) (node : Node) :
    Plan :=
  let ancestry := graph.ancestry index
  let parents := ancestry.directParents.filterMap graph.node?
  let table := graph.fillTable promoted index
    ⟨node.id, node.name, [], ancestry.namePath, ancestry.keyPath⟩
  let plan := plan.merge table
  { plan with
    relationships := plan.relationships ++
      parents.map fun parent => ⟨tableRef parent, tableRef node⟩ }

/-- Plans promoted nodes in the given order, up to the first that does not
fit. -/
def planNodes (graph : Graph) (discoveries : Discoveries) (promoted : List Nat) (plan : Plan) :
    List Nat → Except PlanError Plan
  | [] => .ok plan
  | index :: rest =>
    match graph.misfit? discoveries index, graph.node? index with
    | some misfit, _ => .error (.misfit (graph.idOf index) misfit)
    | none, none => planNodes graph discoveries promoted plan rest
    | none, some node =>
      planNodes graph discoveries promoted (graph.planNode promoted plan index node) rest

/-- The plan of a graph that has a root and no cycle. -/
def plan (graph : Graph) : Except PlanError Plan :=
  match graph.nodes with
  | [] => .error (.noRoot graph.name)
  | node :: _ =>
    let order := graph.topologicalOrder
    match graph.indices.find? (· ∉ order) with
    | some stuck => .error (.misfit (graph.idOf stuck) .onOrBelowCycle)
    | none =>
      let promoted := graph.promoted 0
      let table := graph.fillTable promoted 0 ⟨node.id, node.name, [], [], []⟩
      let plan := (Plan.empty graph.name).merge table
      graph.planNodes (graph.discoveries 0) promoted plan (order.filter (· ∈ promoted))

end Graph

end DocumentViews

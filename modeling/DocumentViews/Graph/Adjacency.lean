import DocumentViews.Graph.Basic

/-!
Adjacency records, one for each node that has children, in the order of the
nodes.
-/

namespace DocumentViews

structure AdjacencyRecord where
  id : String
  name : String
  /-- The identifiers of the children. -/
  children : List String

/-- The record as a JSON object. -/
def AdjacencyRecord.toJson (record : AdjacencyRecord) : Json :=
  .obj [("id", .str record.id), ("name", .str record.name),
    ("children", .arr (record.children.map .str))]

namespace Graph

def adjacencyRecord (graph : Graph) (index : Nat) (node : Node) : AdjacencyRecord :=
  ⟨node.id, node.name, (graph.children index).map graph.idOf⟩

def adjacencyRecords (graph : Graph) : List AdjacencyRecord :=
  (graph.nodes.zipIdx.filter fun entry => !(graph.children entry.2).isEmpty).map
    fun entry => graph.adjacencyRecord entry.2 entry.1

end Graph

end DocumentViews

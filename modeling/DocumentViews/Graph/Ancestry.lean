import DocumentViews.Graph.Order
import DocumentViews.Graph.Search

/-!
The ancestry of a node: the nodes above it in topological order, the first of
which is its root, and the shortest path from the root down to it. Among paths
of one length the search prefers children with smaller identifiers.
-/

namespace DocumentViews

structure Ancestry where
  node : Nat
  root : Nat
  directParents : List Nat
  /-- The nodes above the direct parents. -/
  ancestors : List Nat
  /-- The display names along the path. -/
  namePath : List String
  /-- The keys along the path below the root. -/
  keyPath : List String

/-- The node from which another was discovered. -/
def Discoveries.discoverer? (discoveries : Discoveries) (node : Nat) : Option Nat :=
  (List.find? (node ∈ ·.2) discoveries).map Prod.fst

/-- The way from the start of a search to a node, put before a path. It has at
most `count` more steps. -/
def Discoveries.pathTo (discoveries : Discoveries) (node : Nat) (path : List Nat) :
    Nat → List Nat
  | 0 => node :: path
  | count + 1 =>
    match discoveries.discoverer? node with
    | none => node :: path
    | some previous => discoveries.pathTo previous (node :: path) count

namespace Graph

/-- The node and all nodes above it. -/
def lineage (graph : Graph) (node : Nat) : List Nat :=
  node :: (breadthFirst graph.parents graph.nodes.length node).found

/-- A shortest path between two nodes that stays among the members. -/
def shortestPath (graph : Graph) (members : List Nat) (start target : Nat) : List Nat :=
  let next := fun node =>
    (graph.sortById ((graph.children node).filter (· ∈ members))).map Prod.snd
  (breadthFirst next graph.nodes.length start).pathTo target [] graph.nodes.length

def ancestry (graph : Graph) (node : Nat) : Ancestry :=
  let members := graph.lineage node
  let order := graph.topologicalOrderWithin members
  let root := order.head?.getD node
  let directParents := graph.parents node
  let path := graph.shortestPath members root node
  { node, root, directParents
    ancestors := order.filter fun other => other ≠ node ∧ other ∉ directParents
    namePath := (path.filterMap graph.node?).map Node.name
    keyPath := ((path.drop 1).filterMap graph.node?).filterMap Node.key }

end Graph

end DocumentViews

import DocumentViews.Graph.Basic
import DocumentViews.Listing

/-!
Topological order within a set of nodes. A node waits for as many parents as
it has in the set, and is ready when it waits for none. The ready node with
the smallest identifier goes next and is taken off the counts of its children.
Nodes on or below a cycle are never ready and stay out of the order.
-/

namespace DocumentViews.Graph

/-- Nodes in ascending order of their identifiers. -/
def sortById (graph : Graph) (nodes : List Nat) : Members Nat :=
  Members.ofList (nodes.map fun node => (graph.idOf node, node))

/-- The nodes that are not in the order yet: those that are ready, by their
identifiers, and those that wait for a positive number of parents. -/
structure Pending where
  ready : Members Nat
  waiting : Listing Nat Nat

def Pending.size (pending : Pending) : Nat :=
  pending.ready.length + pending.waiting.length

/-- Takes one parent off the count of a node. Tells whether the node is ready
now, and then it no longer waits. -/
def release (node : Nat) : Listing Nat Nat → Listing Nat Nat × Bool
  | [] => ([], false)
  | (other, count) :: rest =>
    if other = node then
      if count ≤ 1 then (rest, true) else ((other, count - 1) :: rest, false)
    else
      let (rest, ready) := release node rest
      ((other, count) :: rest, ready)

theorem release_length {node : Nat} {waiting rest : Listing Nat Nat} {ready : Bool}
    (h : release node waiting = (rest, ready)) :
    rest.length + (if ready then 1 else 0) = waiting.length := by
  induction waiting generalizing rest with
  | nil => simp [release] at h; simp [← h.1, ← h.2]
  | cons entry waiting ih =>
    obtain ⟨other, count⟩ := entry
    simp only [release] at h
    split at h
    · split at h <;> obtain ⟨rfl, rfl⟩ := Prod.mk.inj h <;> simp
    · obtain ⟨rfl, rfl⟩ := Prod.mk.inj h
      have := ih rfl
      simp only [List.length_cons]
      omega

def Pending.release (graph : Graph) (pending : Pending) (node : Nat) : Pending :=
  match Graph.release node pending.waiting with
  | (waiting, true) => ⟨pending.ready.insert (graph.idOf node) node, waiting⟩
  | (waiting, false) => ⟨pending.ready, waiting⟩

theorem Pending.size_release_le (graph : Graph) (pending : Pending) (node : Nat) :
    (pending.release graph node).size ≤ pending.size := by
  unfold Pending.release
  split <;> next h =>
    have := release_length h
    have := Members.length_insert_le pending.ready (graph.idOf node) node
    simp [Pending.size] at *
    omega

theorem Pending.size_foldl_release_le (graph : Graph) (nodes : List Nat) (pending : Pending) :
    (nodes.foldl (Pending.release graph) pending).size ≤ pending.size := by
  induction nodes generalizing pending with
  | nil => exact Nat.le_refl _
  | cons node rest ih => exact Nat.le_trans (ih _) (size_release_le graph pending node)

/-- Puts the pending nodes into order as far as they get ready. -/
def drain (graph : Graph) (pending : Pending) : List Nat :=
  match hready : pending.ready with
  | [] => []
  | (_, node) :: rest =>
    let next := (graph.children node).foldl (Pending.release graph) ⟨rest, pending.waiting⟩
    have : next.size < pending.size := by
      have := Pending.size_foldl_release_le graph (graph.children node) ⟨rest, pending.waiting⟩
      simp [Pending.size, hready, next] at *
      omega
    node :: drain graph next
termination_by pending.size

/-- How many parents of a node are among the members. -/
def inDegree (graph : Graph) (members : List Nat) (node : Nat) : Nat :=
  ((graph.parents node).filter (· ∈ members)).length

def topologicalOrderWithin (graph : Graph) (members : List Nat) : List Nat :=
  let counted := members.map fun node => (node, graph.inDegree members node)
  let ready := (counted.filter (·.2 == 0)).map Prod.fst
  graph.drain ⟨graph.sortById ready, counted.filter (·.2 != 0)⟩

def topologicalOrder (graph : Graph) : List Nat :=
  graph.topologicalOrderWithin graph.indices

/-- Whether every node has its place in the order. -/
def isAcyclic (graph : Graph) : Bool :=
  graph.topologicalOrder.length == graph.nodes.length

end DocumentViews.Graph

import DocumentViews.Graph.Basic
import DocumentViews.Listing

/-!
Searches that map each node to the children first discovered from it, up to a
limit on the number of steps from the start. The breadth-first search goes
layer by layer. The depth-first search keeps a stack of the nodes it is in,
each with a count of the children it has looked at. Nodes that discover
nothing are left out of both maps.
-/

namespace DocumentViews

/-- Nodes with what was discovered from them, in order of first discovery. -/
abbrev Discoveries := Listing Nat (List Nat)

namespace Discoveries

/-- All discovered nodes. -/
def found (discoveries : Discoveries) : List Nat :=
  discoveries.flatMap Prod.snd

end Discoveries

/-- Lets each node of a layer take those of its neighbours that were neither
visited before nor taken by a node to its left. -/
def expandLayer (next : Nat → List Nat) (visited : List Nat) : List Nat → Discoveries
  | [] => []
  | node :: rest =>
    let fresh := (next node).filter (· ∉ visited)
    (node, fresh) :: expandLayer next (visited ++ fresh) rest

/-- Expands a layer and those after it, up to a number of layers. -/
def expandLayers (next : Nat → List Nat) (visited layer : List Nat) : Nat → Discoveries
  | 0 => []
  | count + 1 =>
    let entries := expandLayer next visited layer
    let fresh := entries.found
    if fresh.isEmpty then []
    else entries.filter (!·.2.isEmpty) ++ expandLayers next (visited ++ fresh) fresh count

/-- Breadth-first search along any relation of neighbours. -/
def breadthFirst (next : Nat → List Nat) (count : Nat) (start : Nat) : Discoveries :=
  expandLayers next [start] [start] count

namespace Graph

/-- The nodes that a search has not visited. -/
def unvisited (graph : Graph) (visited : List Nat) : List Nat :=
  graph.indices.filter (· ∉ visited)

/-- A node that a depth-first search is in, its distance from the start along
the way taken, and how many of its children were looked at. -/
structure Frame where
  node : Nat
  depth : Nat
  seen : Nat

/-- How many turns a search takes in a node where `count` children were not
looked at: one for each and one to leave. -/
def turns (graph : Graph) (node seen : Nat) : Nat :=
  (graph.children node).length - seen + 1

/-- The weights of all items together. -/
def total {α : Type} (weight : α → Nat) : List α → Nat
  | [] => 0
  | item :: rest => weight item + total weight rest

/-- A bound on the turns of a search, in the nodes that it is in and in those
that it may still visit. -/
def turnsLeft (graph : Graph) (visited : List Nat) (stack : List Frame) : Nat :=
  total (graph.turns · 0) (graph.unvisited visited) +
    total (fun frame => graph.turns frame.node frame.seen) stack

theorem total_filter_le (weight : Nat → Nat) (keep : Nat → Bool) (nodes : List Nat) :
    total weight (nodes.filter keep) ≤ total weight nodes := by
  induction nodes with
  | nil => simp
  | cons other rest ih =>
    rw [List.filter_cons]
    split
    · simp only [total]
      omega
    · simp only [total]
      omega

theorem total_filter_ne_add_le (weight : Nat → Nat) {nodes : List Nat} {node : Nat}
    (h : node ∈ nodes) :
    total weight (nodes.filter (· ≠ node)) + weight node ≤ total weight nodes := by
  induction nodes with
  | nil => simp at h
  | cons other rest ih =>
    rw [List.filter_cons]
    by_cases hother : other = node
    · have := total_filter_le weight (· ≠ node) rest
      rw [if_neg (by simp [hother]), hother]
      simp only [total]
      omega
    · have := ih ((List.mem_cons.1 h).resolve_left (Ne.symm hother))
      rw [if_pos (by simp [hother])]
      simp only [total]
      omega

theorem total_unvisited_cons (graph : Graph) (weight : Nat → Nat) {visited : List Nat} {node : Nat}
    (hnode : node < graph.nodes.length) (hnew : node ∉ visited) :
    total weight (graph.unvisited (node :: visited)) + weight node ≤
      total weight (graph.unvisited visited) := by
  have hmem : node ∈ graph.unvisited visited := by
    simp [unvisited, indices, hnode, hnew]
  have hfilter : graph.unvisited (node :: visited) =
      (graph.unvisited visited).filter (· ≠ node) := by
    simp only [unvisited, List.filter_filter, List.mem_cons, not_or]
    refine List.filter_congr fun other _ => ?_
    simp
  rw [hfilter]
  exact total_filter_ne_add_le weight hmem

/-- Runs a depth-first search from a stack of frames, the innermost first. -/
def descend (graph : Graph) (limit : Option Nat) (visited : List Nat) (found : Discoveries)
    (stack : List Frame) : Discoveries :=
  match stack with
  | [] => found
  | frame :: below =>
    if limit.any (· ≤ frame.depth) then descend graph limit visited found below
    else
      match hchild : (graph.children frame.node)[frame.seen]? with
      | none => descend graph limit visited found below
      | some child =>
        let stack := { frame with seen := frame.seen + 1 } :: below
        if hvisited : child ∈ visited then descend graph limit visited found stack
        else
          descend graph limit (child :: visited)
            (found.alter frame.node fun children => children.getD [] ++ [child])
            (⟨child, frame.depth + 1, 0⟩ :: stack)
termination_by graph.turnsLeft visited stack
decreasing_by
  · simp only [turnsLeft, turns, total]
    omega
  · simp only [turnsLeft, turns, total]
    omega
  · have := (List.getElem?_eq_some_iff.1 hchild).1
    simp only [turnsLeft, turns, total]
    omega
  · have := (List.getElem?_eq_some_iff.1 hchild).1
    have := total_unvisited_cons graph (graph.turns · 0)
      (lt_of_mem_children (List.mem_of_getElem? hchild)) hvisited
    simp only [turnsLeft, turns, total] at *
    omega

inductive SearchOrder where
  | breadth
  | depth

/-- The nodes reached from a start in at most `limit` steps, by the node that
discovers them. Without a limit the number of nodes bounds the steps. -/
def successors (graph : Graph) (start : Nat) (limit : Option Nat) : SearchOrder → Discoveries
  | .breadth => breadthFirst graph.children (limit.getD graph.nodes.length) start
  | .depth => graph.descend limit [start] [] [⟨start, 0, 0⟩]

end Graph

end DocumentViews

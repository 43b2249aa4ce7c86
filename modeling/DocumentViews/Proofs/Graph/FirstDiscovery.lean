import Mathlib
import DocumentViews.Proofs.Graph.ShortestPath
import DocumentViews.Proofs.Graph.QueueSearch

/-!
First discoverers. A queue hands out the nodes that were discovered in the
order of their discovery, and each of them appends those of its neighbours that
were not discovered yet. So a node is discovered by the first neighbour that
the queue hands out. The search by layers finds the nodes in that order, and
maps each of them to the same discoverer.
-/

namespace DocumentViews

/-- The nodes that a queue hands out from a state on, when each of them appends
its neighbours that were not seen yet. -/
inductive Visits (next : Nat → List Nat) : List Nat → List Nat → List Nat → Prop
  | nil (seen : List Nat) : Visits next seen [] []
  | cons {seen queue order : List Nat} {node : Nat}
    (hrest : Visits next (seen ++ (next node).filter (· ∉ seen))
      (queue ++ (next node).filter (· ∉ seen)) order) :
    Visits next seen (node :: queue) (node :: order)

variable {next : Nat → List Nat} {start : Nat} {seen queue order : List Nat}

theorem Visits.unique {other : List Nat} (h : Visits next seen queue order)
    (hother : Visits next seen queue other) : order = other := by
  induction h generalizing other with
  | nil seen =>
    cases hother
    rfl
  | cons hrest ih =>
    cases hother with
    | cons hother => rw [ih hother]

/-- A queue without a limit visits the nodes that it hands out. -/
theorem Serves.visits {queue : List (Nat × Nat)} {found : Discoveries}
    (h : Serves next none seen queue order found) :
    Visits next seen (queue.map Prod.fst) order := by
  induction h with
  | nil seen => exact .nil seen
  | pass hlimit => simp at hlimit
  | expand _ hrest ih =>
    rw [List.map_append, List.map_map] at ih
    apply Visits.cons
    convert ih
    exact (List.map_id _).symm

/-- A node that is found behind a layer is discovered by the first node of the
layer, or behind it, that it is a neighbour of. -/
theorem IsLayer.discoverer?_expandLayers (hnext : ∀ node, (next node).Nodup) {depth : Nat}
    {visited layer : List Nat} (h : IsLayer next start depth visited layer) (count : Nat)
    {node : Nat} (hnode : node ∈ (expandLayers next visited layer count).found) :
    (expandLayers next visited layer count).discoverer? node =
      (layer ++ (expandLayers next visited layer count).found).find? (node ∈ next ·) := by
  induction count generalizing depth visited layer with
  | zero => simp [expandLayers, Discoveries.found] at hnode
  | succ count ih =>
    have hstep := h.step hnext
    rw [found_expandLayers_succ] at hnode ⊢
    rw [discoverer?_expandLayers_succ, List.find?_append]
    by_cases hfresh : node ∈ (expandLayer next visited layer).found
    · obtain ⟨key, hkey⟩ := Discoveries.exists_discoverer hfresh
      obtain ⟨before, after, hlayer, hstep, hbefore⟩ := discoverer?_expandLayer hkey
      have hfirst : layer.find? (node ∈ next ·) = some key := by
        rw [List.find?_eq_some_iff_append]
        exact ⟨by simpa using hstep, before, after, hlayer, by simpa using hbefore⟩
      rw [hkey, hfirst, Option.some_or, Option.some_or]
    · have hbehind := (List.mem_append.1 hnode).resolve_left hfresh
      have hnew := ((hstep.mem_found_expandLayers hnext count).1 hbehind).2
      have hnone : layer.find? (node ∈ next ·) = none := by
        rw [List.find?_eq_none]
        intro other hother hin
        have hvisited : node ∉ visited := fun hmem =>
          hnew (Or.inl ((h.mem_visited node).1 hmem))
        exact hfresh (mem_found_expandLayer.2 ⟨hvisited, other, hother, by simpa using hin⟩)
      rw [Discoveries.discoverer?_eq_none_iff.2 hfresh, hnone, Option.none_or, Option.none_or]
      exact ih hstep hbehind

namespace Graph

variable {graph : Graph} {root node child : Nat}

/-- The node with which a queue that starts with the root comes first upon
another. Nothing comes upon the root, which is known from the start. -/
def FirstDiscovers (graph : Graph) (root node child : Nat) : Prop :=
  child ≠ root ∧ ∃ order, Visits graph.children [root] [root] order ∧
    order.find? (child ∈ graph.children ·) = some node

theorem visits_successors (hroot : root < graph.nodes.length) :
    Visits graph.children [root] [root] (root :: (graph.successors root none .breadth).found) :=
  (serves_successors hroot none).visits

theorem discoverer?_successors (h : child ∈ (graph.successors root none .breadth).found) :
    (graph.successors root none .breadth).discoverer? child =
      (root :: (graph.successors root none .breadth).found).find? (child ∈ graph.children ·) :=
  (isLayer_start graph.children root).discoverer?_expandLayers graph.children_nodup _ h

theorem firstDiscovers_iff (hroot : root < graph.nodes.length) :
    graph.FirstDiscovers root node child ↔
      (graph.successors root none .breadth).discoverer? child = some node := by
  have hvisits := visits_successors hroot
  constructor
  · rintro ⟨hne, order, horder, hfirst⟩
    obtain rfl := horder.unique hvisits
    have hstep : child ∈ graph.children node := by simpa using List.find?_some hfirst
    have hreach : graph.Reaches root node := by
      rcases List.mem_cons.1 (List.mem_of_find?_eq_some hfirst) with rfl | hnode
      · exact .refl
      · exact ((mem_found_successors hroot).1 hnode).1
    rw [discoverer?_successors ((mem_found_successors hroot).2 ⟨hreach.tail hstep, hne⟩), hfirst]
  · intro hkey
    have hfound := Discoveries.mem_found_of_discoverer? hkey
    refine ⟨((mem_found_successors hroot).1 hfound).2, _, hvisits, ?_⟩
    rw [← discoverer?_successors hfound, hkey]

/-- The search lists the nodes that are first to come upon another. -/
theorem mem_keys_successors (hroot : root < graph.nodes.length) :
    node ∈ Listing.keys (graph.successors root none .breadth) ↔
      ∃ child, graph.FirstDiscovers root node child := by
  constructor
  · intro hkey
    obtain ⟨entry, hentry, rfl⟩ := List.mem_map.1 hkey
    obtain ⟨child, hchild⟩ := List.exists_mem_of_ne_nil _ (entry_successors hentry).1
    refine ⟨child, (firstDiscovers_iff hroot).2 ?_⟩
    exact Discoveries.discoverer?_of_mem (graph.nodup_found_successors root) hentry hchild
  · rintro ⟨child, hfirst⟩
    exact Discoveries.mem_keys_of_discoverer? ((firstDiscovers_iff hroot).1 hfirst)

end Graph

end DocumentViews

import Mathlib
import DocumentViews.Proofs.Graph.Building

/-!
What the operations on graphs do to the attributes of edges. An edge that is
joined again takes over the new attributes and no other edge changes. A graph
is told by its name, its nodes, the ends of its edges and their attributes.
-/

namespace DocumentViews.Graph

variable {graph : Graph}

theorem attributes?_eq_none_iff {parent child : Nat} :
    graph.attributes? parent child = none ↔ (parent, child) ∉ graph.edges.map Edge.ends := by
  simp only [attributes?, Option.map_eq_none_iff, List.find?_eq_none, beq_iff_eq, List.mem_map,
    not_exists, not_and]

/-- Two edges of a graph with the same ends are the same edge. -/
theorem attributes?_of_mem {edge : Edge} (h : edge ∈ graph.edges) :
    graph.attributes? edge.parent edge.child = some edge.attributes := by
  have hfind : graph.edges.find? (·.ends == edge.ends) = some edge := by
    obtain ⟨found, hfound⟩ : ∃ found, graph.edges.find? (·.ends == edge.ends) = some found := by
      rw [← Option.isSome_iff_exists, List.find?_isSome]
      exact ⟨edge, h, by simp⟩
    have hends : found.ends = edge.ends := by simpa using List.find?_some hfound
    rw [hfound]
    exact congrArg some
      (List.inj_on_of_nodup_map graph.ends_nodup (List.mem_of_find?_eq_some hfound) h hends)
  rw [attributes?]
  exact congrArg (Option.map Edge.attributes) hfind

/-- The edges are known from their ends and attributes. -/
theorem edges_eq_map_ends (graph : Graph) :
    graph.edges = (graph.edges.map Edge.ends).map fun ends =>
      ⟨ends.1, ends.2, (graph.attributes? ends.1 ends.2).getD []⟩ := by
  rw [List.map_map]
  symm
  refine (List.map_congr_left fun edge hedge => ?_).trans (List.map_id _)
  simp only [Function.comp_apply, Edge.ends, attributes?_of_mem hedge, Option.getD_some]
  rfl

theorem ext_of_attributes? {first second : Graph} (hname : first.name = second.name)
    (hnodes : first.nodes = second.nodes)
    (hends : first.edges.map Edge.ends = second.edges.map Edge.ends)
    (hattributes : ∀ parent child,
      first.attributes? parent child = second.attributes? parent child) : first = second := by
  have hedges : first.edges = second.edges := by
    rw [edges_eq_map_ends first, edges_eq_map_ends second, hends]
    simp only [hattributes]
  obtain ⟨name, nodes, edges, _, _, _⟩ := first
  obtain ⟨name', nodes', edges', _, _, _⟩ := second
  obtain rfl := hname
  obtain rfl := hnodes
  obtain rfl := hedges
  rfl

theorem attributes?_congr {first second : Graph} (h : first.edges = second.edges)
    (parent child : Nat) : first.attributes? parent child = second.attributes? parent child := by
  rw [attributes?, attributes?, h]

theorem attributes?_extendEdge (graph : Graph) (parent child : Nat) (attributes : Json.Object)
    (i j : Nat) : (graph.extendEdge parent child attributes).attributes? i j =
      (graph.attributes? i j).map fun old =>
        if (i, j) = (parent, child) then old.extend attributes else old := by
  have hsame : ((fun edge : Edge => edge.ends == (i, j)) ∘ fun edge =>
      if edge.ends = (parent, child) then
        { edge with attributes := edge.attributes.extend attributes }
      else edge) = fun edge => edge.ends == (i, j) := by
    funext edge
    simp only [Function.comp_apply]
    split
    · rfl
    · rfl
  simp only [attributes?, extendEdge, List.find?_map, hsame, Option.map_map]
  cases hfind : graph.edges.find? (·.ends == (i, j)) with
  | none => rfl
  | some edge =>
    have hends : edge.ends = (i, j) := by simpa using List.find?_some hfind
    simp only [Option.map_some, Function.comp_apply, hends]
    split
    · rfl
    · rfl

theorem attributes?_appendEdge {parent child : Nat} (attributes : Json.Object)
    (hnew : graph.hasEdge parent child = false)
    (hjoins : parent < graph.nodes.length ∧ child < graph.nodes.length ∧ parent ≠ child)
    (i j : Nat) : (graph.appendEdge parent child attributes hnew hjoins).attributes? i j =
      if (i, j) = (parent, child) then some attributes else graph.attributes? i j := by
  have hlast : ([⟨parent, child, attributes⟩] : List Edge).find? (·.ends == (i, j)) =
      if (i, j) = (parent, child) then some ⟨parent, child, attributes⟩ else none := by
    rw [List.find?_singleton]
    simp only [Edge.ends, beq_iff_eq, eq_comm (a := (i, j))]
  rw [attributes?, appendEdge, List.find?_append, Option.map_or, hlast]
  by_cases h : (i, j) = (parent, child)
  · obtain ⟨rfl, rfl⟩ := Prod.mk.inj h
    have hold := attributes?_eq_none_iff.2 (hasEdge_eq_false_iff.1 hnew)
    rw [attributes?] at hold
    rw [hold, if_pos rfl, if_pos rfl]
    rfl
  · rw [if_neg h, if_neg h, Option.map_none, Option.or_none]
    rfl

/-- Joining two different nodes sets attributes of the edge between them. -/
theorem attributes?_addEdge {parent child : Nat}
    (hjoins : parent < graph.nodes.length ∧ child < graph.nodes.length ∧ parent ≠ child)
    (attributes : Json.Object) (i j : Nat) :
    (graph.addEdge parent child attributes).1.attributes? i j =
      if (i, j) = (parent, child) then
        some (((graph.attributes? i j).map (·.extend attributes)).getD attributes)
      else graph.attributes? i j := by
  unfold addEdge
  split
  · next hold =>
    rw [attributes?_extendEdge]
    by_cases h : (i, j) = (parent, child)
    · obtain ⟨rfl, rfl⟩ := Prod.mk.inj h
      have hsome : graph.attributes? i j ≠ none := fun hnone =>
        attributes?_eq_none_iff.1 hnone (hasEdge_iff.1 hold)
      obtain ⟨old, hold⟩ := Option.ne_none_iff_exists'.1 hsome
      simp [hold]
    · simp [h]
  · next hnew =>
    rw [dif_pos hjoins]
    simp only [attributes?_appendEdge]
    by_cases h : (i, j) = (parent, child)
    · obtain ⟨rfl, rfl⟩ := Prod.mk.inj h
      rw [attributes?_eq_none_iff.2 (hasEdge_eq_false_iff.1 hnew)]
      rfl
    · rw [if_neg h, if_neg h]

theorem loop_notMem_ends (graph : Graph) (index : Nat) :
    (index, index) ∉ graph.edges.map Edge.ends := by
  intro hin
  obtain ⟨edge, hedge, heq⟩ := List.mem_map.1 hin
  obtain ⟨hparent, hchild⟩ := Prod.mk.inj heq
  exact (graph.joins edge hedge).2.2 (hparent.trans hchild.symm)

/-- A node is not joined to itself, and nothing else happens. -/
theorem addEdge_self (graph : Graph) (index : Nat) (attributes : Json.Object) :
    (graph.addEdge index index attributes).1 = graph := by
  unfold addEdge
  split
  · next hold => exact absurd (hasEdge_iff.1 hold) (graph.loop_notMem_ends index)
  · rw [dif_neg fun h => h.2.2 rfl]

theorem attributes?_addNode (graph : Graph) (node : Node) (i j : Nat) :
    (graph.addNode node).1.attributes? i j = graph.attributes? i j :=
  attributes?_congr (edges_addNode graph node) i j

end DocumentViews.Graph

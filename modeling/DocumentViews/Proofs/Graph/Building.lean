import Mathlib
import DocumentViews.Proofs.Graph.Reachability

/-!
What the operations on graphs do to identifiers and to the pairs of identifiers
that edges join. A node is appended when its identifier is new, an edge when
its pair is new and no loop. Nothing moves: a node keeps its number and an
edge its ends.
-/

namespace DocumentViews.Graph

open Relation

/-- The identifiers of the nodes, by number. -/
def ids (graph : Graph) : List String :=
  graph.nodes.map Node.id

/-- The identifiers that the edges join, in the order of the edges. -/
def links (graph : Graph) : List (String × String) :=
  graph.edges.map fun edge => (graph.idOf edge.parent, graph.idOf edge.child)

variable {graph : Graph}

theorem indexOf?_eq_some_iff {id : String} {index : Nat} :
    graph.indexOf? id = some index ↔ index < graph.nodes.length ∧ graph.idOf index = id := by
  rw [indexOf?, List.findIdx?_eq_some_iff_getElem]
  constructor
  · intro hboth
    obtain ⟨hlt, hid, -⟩ := hboth
    exact ⟨hlt, by simpa [idOf, node?, hlt] using hid⟩
  · intro hboth
    obtain ⟨hlt, hid⟩ := hboth
    refine ⟨hlt, by simpa [idOf, node?, hlt] using hid, fun other hother => ?_⟩
    have hless : other < graph.nodes.length := by omega
    have hne : graph.idOf other ≠ graph.idOf index := fun hsame => by
      have := idOf_injective hless hlt hsame
      omega
    simpa [idOf, node?, hlt, hless, ← hid] using hne

/-- The node of an identifier is the first that has it. -/
theorem node?_indexOf? {id : String} {index : Nat} (h : graph.indexOf? id = some index) :
    graph.node? index = graph.nodes.find? (·.id == id) := by
  rw [indexOf?, List.findIdx?_eq_some_iff_getElem] at h
  obtain ⟨hlt, hid, hbefore⟩ := h
  rw [node?, List.getElem?_eq_getElem hlt]
  symm
  rw [List.find?_eq_some_iff_getElem]
  exact ⟨hid, index, hlt, rfl, fun other hother => by simpa using hbefore other hother⟩

theorem mem_ids {id : String} :
    id ∈ graph.ids ↔ ∃ index < graph.nodes.length, graph.idOf index = id := by
  rw [ids, List.mem_map]
  constructor
  · intro hsome
    obtain ⟨node, hnode, rfl⟩ := hsome
    obtain ⟨index, hlt, rfl⟩ := List.getElem_of_mem hnode
    exact ⟨index, hlt, by simp [idOf, node?, hlt]⟩
  · intro hsome
    obtain ⟨index, hlt, rfl⟩ := hsome
    exact ⟨graph.nodes[index], List.getElem_mem hlt, by simp [idOf, node?, hlt]⟩

theorem indexOf?_isSome_iff {id : String} : (∃ index, graph.indexOf? id = some index) ↔
    id ∈ graph.ids := by
  simp only [indexOf?_eq_some_iff, mem_ids]

theorem mem_links {parent child : Nat} (hparent : parent < graph.nodes.length)
    (hchild : child < graph.nodes.length) :
    (graph.idOf parent, graph.idOf child) ∈ graph.links ↔ graph.IsParent parent child := by
  rw [isParent_iff_mem_ends, links, List.mem_map, List.mem_map]
  constructor
  · intro hsome
    obtain ⟨edge, hedge, heq⟩ := hsome
    obtain ⟨hleft, hright⟩ := Prod.mk.inj heq
    have hjoins := graph.joins edge hedge
    refine ⟨edge, hedge, Prod.ext ?_ ?_⟩
    · exact idOf_injective hjoins.1 hparent hleft
    · exact idOf_injective hjoins.2.1 hchild hright
  · intro hsome
    obtain ⟨edge, hedge, heq⟩ := hsome
    obtain ⟨rfl, rfl⟩ := Prod.mk.inj heq
    exact ⟨edge, hedge, rfl⟩

theorem links_eq_map_ends (graph : Graph) :
    graph.links = (graph.edges.map Edge.ends).map (Prod.map graph.idOf graph.idOf) := by
  rw [links, List.map_map]
  rfl

theorem nodup_ids (graph : Graph) : graph.ids.Nodup :=
  graph.ids_nodup

theorem nodup_links (graph : Graph) : graph.links.Nodup := by
  rw [links_eq_map_ends]
  refine List.Nodup.map_on ?_ graph.ends_nodup
  intro first hfirst second hsecond h
  obtain ⟨edge, hedge, rfl⟩ := List.mem_map.1 hfirst
  obtain ⟨other, hother, rfl⟩ := List.mem_map.1 hsecond
  obtain ⟨hparent, hchild⟩ := Prod.mk.inj h
  have hjoins := graph.joins edge hedge
  have hjoinsOther := graph.joins other hother
  exact Prod.ext (idOf_injective hjoins.1 hjoinsOther.1 hparent)
    (idOf_injective hjoins.2.1 hjoinsOther.2.1 hchild)

theorem exists_isParent_of_mem_links {parent child : String}
    (h : (parent, child) ∈ graph.links) :
    ∃ i j, graph.IsParent i j ∧ graph.idOf i = parent ∧ graph.idOf j = child := by
  obtain ⟨edge, hedge, heq⟩ := List.mem_map.1 h
  obtain ⟨hparent, hchild⟩ := Prod.mk.inj heq
  exact ⟨edge.parent, edge.child,
    isParent_iff_mem_ends.2 (List.mem_map.2 ⟨edge, hedge, rfl⟩), hparent, hchild⟩

theorem IsParent.mem_links {i j : Nat} (h : graph.IsParent i j) :
    (graph.idOf i, graph.idOf j) ∈ graph.links :=
  (Graph.mem_links h.lt_left h.lt_right).2 h

/-- A chain of links is the chain of identifiers along a path. -/
theorem exists_reaches_of_links {start : Nat} (hstart : start < graph.nodes.length)
    {id : String} (h : ReflTransGen (fun parent child => (parent, child) ∈ graph.links)
      (graph.idOf start) id) : ∃ index, graph.Reaches start index ∧ graph.idOf index = id := by
  induction h with
  | refl => exact ⟨start, ReflTransGen.refl, rfl⟩
  | tail _ hlink ih =>
    obtain ⟨index, hreach, hid⟩ := ih
    obtain ⟨i, j, hparent, hi, hj⟩ := exists_isParent_of_mem_links hlink
    have hsame := idOf_injective hparent.lt_left (hreach.lt hstart) (hi.trans hid.symm)
    exact ⟨j, hreach.tail (hsame ▸ hparent), hj⟩

/-- The children of a node by their identifiers, in their order. -/
theorem map_idOf_children {parent : Nat} (hparent : parent < graph.nodes.length) :
    (graph.children parent).map graph.idOf =
      (graph.links.filter (·.1 = graph.idOf parent)).map Prod.snd := by
  have hsame : ∀ edge ∈ graph.edges,
      (edge.parent == parent) = decide (graph.idOf edge.parent = graph.idOf parent) := by
    intro edge hedge
    by_cases h : edge.parent = parent
    · simp [h]
    · have hne : graph.idOf edge.parent ≠ graph.idOf parent := fun hid =>
        h (idOf_injective (graph.joins edge hedge).1 hparent hid)
      simp [h, hne]
  rw [children, links, List.filter_map, List.map_map, List.map_map, List.filter_congr hsame]
  rfl

theorem nodes_addNode (graph : Graph) (node : Node) : (graph.addNode node).1.nodes =
    if node.id ∈ graph.ids then graph.nodes else graph.nodes ++ [node] := by
  unfold addNode
  split
  · next index h => rw [if_pos (indexOf?_isSome_iff.1 ⟨index, h⟩)]
  · next h => rw [if_neg (show node.id ∉ graph.ids from indexOf?_eq_none_iff.1 h)]

theorem prefix_nodes_addNode (graph : Graph) (node : Node) :
    graph.nodes <+: (graph.addNode node).1.nodes := by
  rw [nodes_addNode]
  split
  · exact List.prefix_rfl
  · exact List.prefix_append _ _

theorem edges_addNode (graph : Graph) (node : Node) :
    (graph.addNode node).1.edges = graph.edges := by
  unfold addNode
  split
  · rfl
  · rfl

theorem nodes_addEdge (graph : Graph) (parent child : Nat) (attributes : Json.Object) :
    (graph.addEdge parent child attributes).1.nodes = graph.nodes := by
  unfold addEdge
  split
  · rfl
  · split
    · rfl
    · rfl

theorem hasEdge_iff {parent child : Nat} :
    graph.hasEdge parent child = true ↔ (parent, child) ∈ graph.edges.map Edge.ends := by
  rw [← not_iff_not, Bool.not_eq_true, hasEdge_eq_false_iff]

theorem ends_addEdge (graph : Graph) (parent child : Nat) (attributes : Json.Object) :
    (graph.addEdge parent child attributes).1.edges.map Edge.ends =
      if (parent, child) ∈ graph.edges.map Edge.ends ∨
          ¬ (parent < graph.nodes.length ∧ child < graph.nodes.length ∧ parent ≠ child) then
        graph.edges.map Edge.ends
      else graph.edges.map Edge.ends ++ [(parent, child)] := by
  unfold addEdge
  split
  · next hold =>
    rw [if_pos (Or.inl (hasEdge_iff.1 hold)), extendEdge, List.map_map]
    apply List.map_congr_left
    intro edge _
    simp only [Function.comp_apply]
    split
    · rfl
    · rfl
  · next hnew =>
    have hout := hasEdge_eq_false_iff.1 hnew
    split
    · next hjoins =>
      rw [if_neg (not_or.2 ⟨hout, not_not.2 hjoins⟩), appendEdge, List.map_append]
      rfl
    · next hjoins => rw [if_pos (Or.inr hjoins)]

theorem nodes_add (graph : Graph) (node : Node) (parent : Option Nat)
    (attributes : Json.Object) :
    (graph.add node parent attributes).1.nodes = (graph.addNode node).1.nodes := by
  cases parent with
  | none => rfl
  | some parent => exact nodes_addEdge _ parent _ attributes

theorem ids_add (graph : Graph) (node : Node) (parent : Option Nat) (attributes : Json.Object) :
    (graph.add node parent attributes).1.ids =
      if node.id ∈ graph.ids then graph.ids else graph.ids ++ [node.id] := by
  rw [ids, nodes_add, nodes_addNode]
  split
  · rfl
  · rw [List.map_append]
    rfl

theorem indexOf?_addNode (graph : Graph) (node : Node) :
    (graph.addNode node).1.indexOf? node.id = some (graph.addNode node).2 := by
  unfold addNode
  split
  · next index h => exact h
  · next h =>
    refine indexOf?_eq_some_iff.2 ⟨?_, ?_⟩
    · simp
    · simp [idOf, node?]

/-- An identifier keeps its number when a node is added. -/
theorem indexOf?_addNode_of_eq_some {id : String} {index : Nat}
    (h : graph.indexOf? id = some index) (node : Node) :
    (graph.addNode node).1.indexOf? id = some index := by
  obtain ⟨hlt, hid⟩ := indexOf?_eq_some_iff.1 h
  apply indexOf?_eq_some_iff.2
  simp only [idOf, node?, nodes_addNode] at hid ⊢
  split
  · exact ⟨hlt, hid⟩
  · rw [List.length_append, List.getElem?_append_left hlt]
    exact ⟨by omega, hid⟩

theorem indexOf?_congr {first second : Graph} (h : first.nodes = second.nodes) (id : String) :
    first.indexOf? id = second.indexOf? id := by
  rw [indexOf?, indexOf?, h]

theorem indexOf?_add (graph : Graph) (node : Node) (parent : Option Nat)
    (attributes : Json.Object) : (graph.add node parent attributes).1.indexOf? node.id =
      some (graph.add node parent attributes).2 := by
  have hnumber : (graph.add node parent attributes).2 = (graph.addNode node).2 := by
    cases parent with
    | none => rfl
    | some parent => rfl
  rw [indexOf?_congr (nodes_add graph node parent attributes), indexOf?_addNode, hnumber]

theorem indexOf?_add_of_eq_some {id : String} {index : Nat}
    (h : graph.indexOf? id = some index) (node : Node) (parent : Option Nat)
    (attributes : Json.Object) :
    (graph.add node parent attributes).1.indexOf? id = some index := by
  rw [indexOf?_congr (nodes_add graph node parent attributes)]
  exact indexOf?_addNode_of_eq_some h node

/-- Of two nodes that are added the second gets the number of the first exactly
when they have one identifier. -/
theorem snd_add_add_eq_iff (graph : Graph) (first second : Node) (firstParent secondParent : Option Nat)
    (firstAttributes secondAttributes : Json.Object) :
    ((graph.add first firstParent firstAttributes).1.add second secondParent
        secondAttributes).2 = (graph.add first firstParent firstAttributes).2 ↔
      second.id = first.id := by
  have hfirst := indexOf?_add_of_eq_some
    (indexOf?_add graph first firstParent firstAttributes) second secondParent
    secondAttributes
  have hsecond := indexOf?_add (graph.add first firstParent firstAttributes).1 second
    secondParent secondAttributes
  constructor
  · intro hnumber
    rw [hnumber] at hsecond
    rw [← (indexOf?_eq_some_iff.1 hsecond).2, (indexOf?_eq_some_iff.1 hfirst).2]
  · intro hid
    rw [hid, hfirst] at hsecond
    exact (Option.some.inj hsecond).symm

/-- Links depend on the edges and on the identifiers at their ends. -/
theorem links_congr {first second : Graph} (hends : first.edges.map Edge.ends =
    second.edges.map Edge.ends) (hid : ∀ index < first.nodes.length,
      first.idOf index = second.idOf index) : first.links = second.links := by
  rw [links_eq_map_ends, links_eq_map_ends, ← hends]
  apply List.map_congr_left
  intro ends hin
  obtain ⟨edge, hedge, rfl⟩ := List.mem_map.1 hin
  have hjoins := first.joins edge hedge
  exact Prod.ext (hid _ hjoins.1) (hid _ hjoins.2.1)

theorem links_addNode (graph : Graph) (node : Node) :
    (graph.addNode node).1.links = graph.links := by
  symm
  apply links_congr
  · rw [edges_addNode]
  · intro index hlt
    have hsome : graph.indexOf? (graph.idOf index) = some index :=
      indexOf?_eq_some_iff.2 ⟨hlt, rfl⟩
    have hkept := indexOf?_addNode_of_eq_some hsome node
    exact (indexOf?_eq_some_iff.1 hkept).2.symm

theorem links_addEdge {parent child : Nat} (hparent : parent < graph.nodes.length)
    (hchild : child < graph.nodes.length) (attributes : Json.Object) :
    (graph.addEdge parent child attributes).1.links =
      if (graph.idOf parent, graph.idOf child) ∈ graph.links ∨
          graph.idOf parent = graph.idOf child then graph.links
      else graph.links ++ [(graph.idOf parent, graph.idOf child)] := by
  have hid : (graph.addEdge parent child attributes).1.idOf = graph.idOf := by
    funext index
    rw [idOf, idOf, node?, node?, nodes_addEdge]
  have hmem := (mem_links hparent hchild).trans isParent_iff_mem_ends
  rw [links_eq_map_ends, hid, ends_addEdge]
  by_cases hold : (parent, child) ∈ graph.edges.map Edge.ends
  · rw [if_pos (Or.inl hold), if_pos (Or.inl (hmem.2 hold)), ← links_eq_map_ends]
  · by_cases hloop : parent = child
    · rw [if_pos (Or.inr fun h => h.2.2 hloop), if_pos (Or.inr (congrArg graph.idOf hloop)),
        ← links_eq_map_ends]
    · have hne : graph.idOf parent ≠ graph.idOf child := fun h =>
        hloop (idOf_injective hparent hchild h)
      rw [if_neg (not_or.2 ⟨hold, not_not.2 ⟨hparent, hchild, hloop⟩⟩),
        if_neg (not_or.2 ⟨fun h => hold (hmem.1 h), hne⟩), List.map_append, ← links_eq_map_ends]
      rfl

theorem links_add_none (graph : Graph) (node : Node) (attributes : Json.Object) :
    (graph.add node none attributes).1.links = graph.links :=
  links_addNode graph node

/-- Adding a node under another links their identifiers, once, unless they are
the same. -/
theorem links_add_some {id : String} {parent : Nat} (hparent : graph.indexOf? id = some parent)
    (node : Node) (attributes : Json.Object) :
    (graph.add node (some parent) attributes).1.links =
      if (id, node.id) ∈ graph.links ∨ id = node.id then graph.links
      else graph.links ++ [(id, node.id)] := by
  obtain ⟨hlt, hid⟩ := indexOf?_eq_some_iff.1 (indexOf?_addNode_of_eq_some hparent node)
  obtain ⟨hltNode, hidNode⟩ := indexOf?_eq_some_iff.1 (indexOf?_addNode graph node)
  have h := links_addEdge hlt hltNode attributes
  rw [hid, hidNode, links_addNode] at h
  exact h

end DocumentViews.Graph

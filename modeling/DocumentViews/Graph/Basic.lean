import DocumentViews.Graph.Node

/-!
Directed graphs of nodes. Nodes are numbered in the order of their arrival and
stand once for each identifier, and the first is the root. An edge joins two
different nodes at most once and carries attributes. Children and parents of a
node come in the order in which their edges arrived. Nothing forbids cycles.
-/

namespace DocumentViews

structure Edge where
  parent : Nat
  child : Nat
  attributes : Json.Object

def Edge.ends (edge : Edge) : Nat × Nat :=
  (edge.parent, edge.child)

structure Graph where
  name : String
  nodes : List Node
  edges : List Edge
  ids_nodup : (nodes.map Node.id).Nodup
  ends_nodup : (edges.map Edge.ends).Nodup
  /-- An edge joins two different nodes of the graph. -/
  joins : ∀ edge ∈ edges,
    edge.parent < nodes.length ∧ edge.child < nodes.length ∧ edge.parent ≠ edge.child

namespace Graph

def empty (name : String) : Graph :=
  ⟨name, [], [], by simp, by simp, by simp⟩

def node? (graph : Graph) (index : Nat) : Option Node :=
  graph.nodes[index]?

/-- The number of the node with the given identifier. -/
def indexOf? (graph : Graph) (id : String) : Option Nat :=
  graph.nodes.findIdx? (·.id == id)

def root? (graph : Graph) : Option Nat :=
  if graph.nodes.isEmpty then none else some 0

def indices (graph : Graph) : List Nat :=
  List.range graph.nodes.length

def children (graph : Graph) (parent : Nat) : List Nat :=
  (graph.edges.filter (·.parent == parent)).map Edge.child

def parents (graph : Graph) (child : Nat) : List Nat :=
  (graph.edges.filter (·.child == child)).map Edge.parent

/-- The attributes of the edge between two nodes. -/
def attributes? (graph : Graph) (parent child : Nat) : Option Json.Object :=
  (graph.edges.find? (·.ends == (parent, child))).map Edge.attributes

def hasEdge (graph : Graph) (parent child : Nat) : Bool :=
  graph.edges.any (·.ends == (parent, child))

/-- The identifier of a node, and nothing for a number without a node. -/
def idOf (graph : Graph) (index : Nat) : String :=
  ((graph.node? index).map Node.id).getD ""

theorem indexOf?_eq_none_iff {graph : Graph} {id : String} :
    graph.indexOf? id = none ↔ id ∉ graph.nodes.map Node.id := by
  simp only [indexOf?, List.findIdx?_eq_none_iff, List.mem_map, not_exists, not_and,
    beq_eq_false_iff_ne]

/-- Adds a node unless its identifier is known. Returns its number. -/
def addNode (graph : Graph) (node : Node) : Graph × Nat :=
  match h : graph.indexOf? node.id with
  | some index => (graph, index)
  | none =>
    ({ graph with
        nodes := graph.nodes ++ [node]
        ids_nodup := by
          have := indexOf?_eq_none_iff.1 h
          simp only [List.map_append, List.map_cons, List.map_nil, List.nodup_append]
          refine ⟨graph.ids_nodup, by simp, ?_⟩
          rintro a ha b hb rfl
          simp only [List.mem_singleton] at hb
          exact this (hb ▸ ha)
        joins := fun edge hedge => by
          have := graph.joins edge hedge
          simp only [List.length_append]
          omega },
      graph.nodes.length)

theorem hasEdge_eq_false_iff {graph : Graph} {parent child : Nat} :
    graph.hasEdge parent child = false ↔ (parent, child) ∉ graph.edges.map Edge.ends := by
  simp [hasEdge]

/-- Sets attributes of the edge between two nodes. New values win. -/
def extendEdge (graph : Graph) (parent child : Nat) (attributes : Json.Object) : Graph :=
  { graph with
    edges := graph.edges.map fun edge =>
      if edge.ends = (parent, child) then
        { edge with attributes := edge.attributes.extend attributes }
      else edge
    ends_nodup := by
      have : List.map Edge.ends (graph.edges.map fun edge =>
          if edge.ends = (parent, child) then
            { edge with attributes := edge.attributes.extend attributes }
          else edge) = graph.edges.map Edge.ends := by
        rw [List.map_map]
        refine List.map_congr_left fun edge _ => ?_
        simp only [Function.comp_apply]
        split <;> rfl
      exact this ▸ graph.ends_nodup
    joins := by
      intro edge hedge
      obtain ⟨old, hold, rfl⟩ := List.mem_map.1 hedge
      have := graph.joins old hold
      split <;> exact this }

/-- Joins two different nodes by an edge of their own. -/
def appendEdge (graph : Graph) (parent child : Nat) (attributes : Json.Object)
    (hnew : graph.hasEdge parent child = false)
    (hjoins : parent < graph.nodes.length ∧ child < graph.nodes.length ∧ parent ≠ child) : Graph :=
  { graph with
    edges := graph.edges ++ [⟨parent, child, attributes⟩]
    ends_nodup := by
      simp only [List.map_append, List.map_cons, List.map_nil, List.nodup_append]
      refine ⟨graph.ends_nodup, by simp, ?_⟩
      rintro a ha b hb rfl
      simp only [List.mem_singleton] at hb
      subst hb
      exact hasEdge_eq_false_iff.1 hnew ha
    joins := by
      intro edge hedge
      rcases List.mem_append.1 hedge with h | h
      · exact graph.joins edge h
      · simp only [List.mem_singleton] at h
        exact h ▸ hjoins }

/-- Joins a parent to a child, or sets attributes of the edge between them.
Tells whether the edge is new. A node is not joined to itself. -/
def addEdge (graph : Graph) (parent child : Nat) (attributes : Json.Object) : Graph × Bool :=
  match hnew : graph.hasEdge parent child with
  | true => (graph.extendEdge parent child attributes, false)
  | false =>
    if hjoins : parent < graph.nodes.length ∧ child < graph.nodes.length ∧ parent ≠ child then
      (graph.appendEdge parent child attributes hnew hjoins, true)
    else (graph, false)

/-- Adds a node and joins it to a parent, if one is given. -/
def add (graph : Graph) (node : Node) (parent : Option Nat) (attributes : Json.Object) :
    Graph × Nat :=
  let (graph, index) := graph.addNode node
  match parent with
  | none => (graph, index)
  | some parent => ((graph.addEdge parent index attributes).1, index)

theorem mem_children {graph : Graph} {parent child : Nat} :
    child ∈ graph.children parent ↔ (parent, child) ∈ graph.edges.map Edge.ends := by
  simp only [children, List.mem_map, List.mem_filter, beq_iff_eq, Edge.ends, Prod.mk.injEq]
  grind

theorem mem_parents {graph : Graph} {parent child : Nat} :
    parent ∈ graph.parents child ↔ (parent, child) ∈ graph.edges.map Edge.ends := by
  simp only [parents, List.mem_map, List.mem_filter, beq_iff_eq, Edge.ends, Prod.mk.injEq]
  grind

/-- Children and parents are the two directions of one relation. -/
theorem mem_children_iff_mem_parents {graph : Graph} {parent child : Nat} :
    child ∈ graph.children parent ↔ parent ∈ graph.parents child :=
  mem_children.trans mem_parents.symm

theorem lt_of_mem_children {graph : Graph} {parent child : Nat}
    (h : child ∈ graph.children parent) : child < graph.nodes.length := by
  obtain ⟨edge, hedge, heq⟩ := List.mem_map.1 (mem_children.1 h)
  obtain ⟨-, rfl⟩ := Prod.mk.inj heq
  exact (graph.joins edge hedge).2.1

theorem ne_of_mem_children {graph : Graph} {parent child : Nat}
    (h : child ∈ graph.children parent) : parent ≠ child := by
  obtain ⟨edge, hedge, heq⟩ := List.mem_map.1 (mem_children.1 h)
  obtain ⟨rfl, rfl⟩ := Prod.mk.inj heq
  exact (graph.joins edge hedge).2.2

end Graph

end DocumentViews

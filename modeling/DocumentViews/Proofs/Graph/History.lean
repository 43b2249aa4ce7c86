import Mathlib
import DocumentViews.Graph.Adjacency
import DocumentViews.Proofs.Graph.Attributes
import DocumentViews.Proofs.Listing
import DocumentViews.Proofs.Members

/-!
What can be seen of a graph is told by the calls that made it. Nodes are
numbered by the first arrivals of their identifiers, children and parents come
in the order in which they were first joined, and an edge has the attributes of
all calls that joined its ends, the last value of a name winning. A call that
joins a node to itself leaves nothing behind.
-/

namespace DocumentViews.Graph

/-- A call that may add to a graph. -/
inductive Call where
  | addNode (node : Node)
  | addEdge (parent child : Nat) (attributes : Json.Object)
  | add (node : Node) (parent : Option Nat) (attributes : Json.Object)

inductive Answer where
  | number (index : Nat)
  | isNew (flag : Bool)
  deriving DecidableEq

namespace Call

/-- The node that a call registers. -/
def node? : Call → Option Node
  | addNode node => some node
  | addEdge _ _ _ => none
  | add node _ _ => some node

/-- The numbers of nodes that a call is given. -/
def indices : Call → List Nat
  | addNode _ => []
  | addEdge parent child _ => [parent, child]
  | add _ parent _ => parent.toList

/-- The edge that a call asks for, where nodes are numbered by identifiers. -/
def edge? (ids : List String) : Call → Option Edge
  | addNode _ => none
  | addEdge parent child attributes => some ⟨parent, child, attributes⟩
  | add node parent attributes =>
    parent.map fun parent => ⟨parent, ids.idxOf node.id, attributes⟩

end Call

def call (graph : Graph) : Call → Graph × Answer
  | .addNode node => (graph.addNode node).map id .number
  | .addEdge parent child attributes => (graph.addEdge parent child attributes).map id .isNew
  | .add node parent attributes => (graph.add node parent attributes).map id .number

/-- The graph that calls make of an empty one. -/
def ofCalls (name : String) (calls : List Call) : Graph :=
  calls.foldl (fun graph next => (graph.call next).1) (empty name)

/-- What a call after others returns. -/
def answer (name : String) (before : List Call) (next : Call) : Answer :=
  ((ofCalls name before).call next).2

/-- One of the calls returned the number. -/
def IsReturned (name : String) (calls : List Call) (index : Nat) : Prop :=
  ∃ before next after, calls = before ++ next :: after ∧ answer name before next = .number index

/-- The nodes that calls register, known ones included. -/
def registered (calls : List Call) : List Node :=
  calls.filterMap Call.node?

/-- The identifiers of the nodes in the order of first registration. -/
def registeredIds (calls : List Call) : List String :=
  firstArrivals ((registered calls).map Node.id)

/-- The edges that calls ask for, repeated ones and loops included. -/
def requested (calls : List Call) : List Edge :=
  calls.filterMap (Call.edge? (registeredIds calls))

/-- The attributes of all requests to join two nodes. -/
def requestedAttributes (edges : List Edge) (parent child : Nat) : List Json.Object :=
  (edges.filter (·.ends == (parent, child))).map Edge.attributes

/-- Calls on an empty graph that get the numbers of nodes from earlier calls,
and attributes that are maps. -/
structure IsHistory (name : String) (calls : List Call) : Prop where
  isReturned : ∀ before next after, calls = before ++ next :: after →
    ∀ index ∈ next.indices, IsReturned name before index
  ascending : ∀ edge ∈ requested calls, edge.attributes.Ascending

/-- One map for several, and none for none. -/
def unionOf? (maps : List Json.Object) : Option Json.Object :=
  if maps = [] then none else some (Members.union maps)

/-- A graph holds what was registered and requested: the first node of each
identifier, and one edge for all requests to join two different nodes. -/
structure Holds (graph : Graph) (nodes : List Node) (edges : List Edge) : Prop where
  ids_eq : graph.ids = firstArrivals (nodes.map Node.id)
  find?_eq : ∀ id, graph.nodes.find? (·.id == id) = nodes.find? (·.id == id)
  ends_eq : graph.edges.map Edge.ends =
    firstArrivals ((edges.filter fun edge => edge.parent ≠ edge.child).map Edge.ends)
  attributes?_eq : ∀ parent child, parent ≠ child →
    graph.attributes? parent child = unionOf? (requestedAttributes edges parent child)

variable {graph : Graph} {nodes : List Node} {edges : List Edge}

theorem Holds.addNode (h : graph.Holds nodes edges) (node : Node) :
    (graph.addNode node).1.Holds (nodes ++ [node]) edges where
  ids_eq := by
    rw [List.map_append, List.map_singleton, firstArrivals_concat, ← h.ids_eq, ids, nodes_addNode]
    split
    · rfl
    · rw [List.map_append]
      rfl
  find?_eq := by
    intro id
    rw [nodes_addNode]
    split
    · next hknown =>
      -- A later node of a known identifier is never the first one.
      rw [List.find?_append, ← h.find?_eq]
      by_cases hid : node.id = id
      · obtain ⟨other, hother, hsame⟩ := List.mem_map.1 hknown
        have hsome : (graph.nodes.find? (·.id == id)).isSome := by
          rw [List.find?_isSome]
          exact ⟨other, hother, by simp [hsame, hid]⟩
        obtain ⟨found, hfound⟩ := Option.isSome_iff_exists.1 hsome
        rw [hfound, Option.some_or]
      · simp [hid]
    · rw [List.find?_append, List.find?_append, h.find?_eq]
  ends_eq := by rw [edges_addNode, h.ends_eq]
  attributes?_eq := fun parent child hne =>
    (attributes?_addNode graph node parent child).trans (h.attributes?_eq parent child hne)

theorem union_singleton {attributes : Json.Object} (h : attributes.Ascending) :
    Members.union [attributes] = attributes :=
  Members.extend_nil h

/-- A further request to join two nodes puts its attributes over the others. -/
theorem unionOf?_concat (maps : List Json.Object) {attributes : Json.Object}
    (h : attributes.Ascending) : unionOf? (maps ++ [attributes]) =
      some (((unionOf? maps).map (·.extend attributes)).getD attributes) := by
  have hne : maps ++ [attributes] ≠ [] := by simp
  rw [unionOf?, if_neg hne, unionOf?]
  split
  · next hnil => rw [hnil, List.nil_append, union_singleton h]; rfl
  · rw [Members.union, List.foldl_append]
    rfl

theorem requestedAttributes_concat (edges : List Edge) (edge : Edge) (parent child : Nat) :
    requestedAttributes (edges ++ [edge]) parent child =
      if (parent, child) = edge.ends then requestedAttributes edges parent child ++ [edge.attributes]
      else requestedAttributes edges parent child := by
  rw [requestedAttributes, List.filter_append, List.map_append]
  split
  · next h => simp [requestedAttributes, h]
  · next h =>
    have hne : edge.ends ≠ (parent, child) := fun heq => h heq.symm
    simp [requestedAttributes, hne]

theorem Holds.addEdge (h : graph.Holds nodes edges) (edge : Edge)
    (hparent : edge.parent < graph.nodes.length) (hchild : edge.child < graph.nodes.length)
    (hattributes : edge.attributes.Ascending) :
    (graph.addEdge edge.parent edge.child edge.attributes).1.Holds nodes (edges ++ [edge]) where
  ids_eq := by rw [ids, nodes_addEdge]; exact h.ids_eq
  find?_eq := by
    intro id
    rw [nodes_addEdge]
    exact h.find?_eq id
  ends_eq := by
    rw [ends_addEdge, List.filter_append, List.map_append, h.ends_eq]
    by_cases hloop : edge.parent = edge.child
    · simp [hloop]
    · have hlast : [edge].filter (fun edge => edge.parent ≠ edge.child) = [edge] := by simp [hloop]
      have hends : edge.ends = (edge.parent, edge.child) := rfl
      rw [hlast, List.map_singleton, firstArrivals_concat, hends]
      by_cases hold : (edge.parent, edge.child) ∈
          firstArrivals ((edges.filter fun edge => edge.parent ≠ edge.child).map Edge.ends)
      · rw [if_pos hold, if_pos (Or.inl hold)]
      · rw [if_neg hold, if_neg (not_or.2 ⟨hold, not_not.2 ⟨hparent, hchild, hloop⟩⟩)]
  attributes?_eq := by
    intro parent child hne
    rw [requestedAttributes_concat]
    by_cases hloop : edge.parent = edge.child
    · have hother : (parent, child) ≠ edge.ends := by
        intro heq
        obtain ⟨rfl, rfl⟩ := Prod.mk.inj heq
        exact hne hloop
      rw [if_neg hother, ← hloop, addEdge_self, h.attributes?_eq parent child hne]
    · rw [attributes?_addEdge ⟨hparent, hchild, hloop⟩, h.attributes?_eq parent child hne]
      have hends : edge.ends = (edge.parent, edge.child) := rfl
      rw [hends]
      by_cases hsame : (parent, child) = (edge.parent, edge.child)
      · rw [if_pos hsame, if_pos hsame, unionOf?_concat _ hattributes]
      · rw [if_neg hsame, if_neg hsame]

/-- The first nodes keep their numbers and contents. -/
theorem prefix_nodes_call (graph : Graph) (next : Call) :
    graph.nodes <+: (graph.call next).1.nodes := by
  cases next with
  | addNode node => exact prefix_nodes_addNode graph node
  | addEdge parent child attributes =>
    change _ <+: (graph.addEdge parent child attributes).1.nodes
    rw [nodes_addEdge]
  | add node parent attributes =>
    change _ <+: (graph.add node parent attributes).1.nodes
    rw [nodes_add]
    exact prefix_nodes_addNode graph node

theorem ofCalls_concat (name : String) (calls : List Call) (next : Call) :
    ofCalls name (calls ++ [next]) = ((ofCalls name calls).call next).1 := by
  rw [ofCalls, List.foldl_append]
  rfl

theorem prefix_nodes_ofCalls (name : String) (calls later : List Call) :
    (ofCalls name calls).nodes <+: (ofCalls name (calls ++ later)).nodes := by
  induction later using List.reverseRecOn with
  | nil => rw [List.append_nil]
  | append_singleton later last ih =>
    rw [← List.append_assoc, ofCalls_concat]
    exact ih.trans (prefix_nodes_call _ last)

theorem lt_of_answer {name : String} {before : List Call} {next : Call} {index : Nat}
    (h : answer name before next = .number index) :
    index < ((ofCalls name before).call next).1.nodes.length := by
  cases next with
  | addNode node =>
    obtain rfl := Answer.number.inj h
    exact (indexOf?_eq_some_iff.1 (indexOf?_addNode _ node)).1
  | addEdge parent child attributes => exact absurd h (by simp [answer, call, Prod.map])
  | add node parent attributes =>
    obtain rfl := Answer.number.inj h
    exact (indexOf?_eq_some_iff.1 (indexOf?_add _ node parent attributes)).1

/-- A number that was returned is the number of a node. -/
theorem IsReturned.lt {name : String} {calls : List Call} {index : Nat}
    (h : IsReturned name calls index) : index < (ofCalls name calls).nodes.length := by
  obtain ⟨before, next, after, rfl, hanswer⟩ := h
  have hlt := lt_of_answer hanswer
  have hprefix := prefix_nodes_ofCalls name (before ++ [next]) after
  rw [ofCalls_concat, List.append_assoc, List.singleton_append] at hprefix
  exact hlt.trans_le hprefix.length_le

theorem registered_append (calls later : List Call) :
    registered (calls ++ later) = registered calls ++ registered later :=
  List.filterMap_append

theorem prefix_registeredIds (calls : List Call) (next : Call) :
    registeredIds calls <+: registeredIds (calls ++ [next]) := by
  rw [registeredIds, registeredIds, registered_append]
  cases hnode : next.node? with
  | none => simp [registered, hnode]
  | some node =>
    have hlast : registered [next] = [node] := by simp [registered, hnode]
    rw [hlast, List.map_append, List.map_singleton, firstArrivals_concat]
    split
    · exact List.prefix_rfl
    · exact List.prefix_append _ _

/-- The nodes that a call names keep their numbers when calls follow. -/
theorem requested_concat (calls : List Call) (next : Call) :
    requested (calls ++ [next]) =
      requested calls ++ (next.edge? (registeredIds (calls ++ [next]))).toList := by
  have hbefore : calls.filterMap (Call.edge? (registeredIds (calls ++ [next]))) =
      requested calls := by
    refine List.filterMap_congr fun earlier hearlier => ?_
    cases earlier with
    | addNode node => rfl
    | addEdge parent child attributes => rfl
    | add node parent attributes =>
      have hknown : node.id ∈ registeredIds calls := by
        rw [registeredIds, mem_firstArrivals]
        exact List.mem_map_of_mem (List.mem_filterMap.2 ⟨_, hearlier, rfl⟩)
      obtain ⟨rest, hrest⟩ := prefix_registeredIds calls next
      rw [Call.edge?, Call.edge?, ← hrest, List.idxOf_append_of_mem hknown]
  rw [requested, List.filterMap_append, hbefore]
  cases hedge : next.edge? (registeredIds (calls ++ [next])) with
  | none => simp [hedge]
  | some edge => simp [hedge]

theorem Holds.idxOf_eq (h : graph.Holds nodes edges) {id : String} {index : Nat}
    (hindex : graph.indexOf? id = some index) :
    (firstArrivals (nodes.map Node.id)).idxOf id = index := by
  obtain ⟨hlt, hid⟩ := indexOf?_eq_some_iff.1 hindex
  have hlength : index < graph.ids.length := by simpa [ids] using hlt
  have hat : graph.ids[index] = id := by simpa [ids, idOf, node?, hlt] using hid
  rw [← h.ids_eq, ← hat]
  exact graph.nodup_ids.idxOf_getElem index hlength

/-- One call adds its node to those that were registered and its edge to those
that were requested. -/
theorem Holds.call (h : graph.Holds nodes edges) (next : Call)
    (hindices : ∀ index ∈ next.indices, index < graph.nodes.length)
    (hattributes : ∀ edge ∈ next.edge?
      (firstArrivals ((nodes ++ next.node?.toList).map Node.id)), edge.attributes.Ascending) :
    (graph.call next).1.Holds (nodes ++ next.node?.toList)
      (edges ++ (next.edge?
        (firstArrivals ((nodes ++ next.node?.toList).map Node.id))).toList) := by
  cases next with
  | addNode node =>
    change (graph.addNode node).1.Holds (nodes ++ [node]) (edges ++ [])
    rw [List.append_nil]
    exact h.addNode node
  | addEdge parent child attributes =>
    change (graph.addEdge parent child attributes).1.Holds (nodes ++ []) (edges ++ [_])
    rw [List.append_nil]
    exact h.addEdge ⟨parent, child, attributes⟩ (hindices parent (by simp [Call.indices]))
      (hindices child (by simp [Call.indices])) (hattributes _ rfl)
  | add node parent attributes =>
    have hnode := h.addNode node
    cases parent with
    | none =>
      change (graph.addNode node).1.Holds (nodes ++ [node]) (edges ++ [])
      rwa [List.append_nil]
    | some parent =>
      have hnumber := indexOf?_addNode graph node
      obtain ⟨hlt, -⟩ := indexOf?_eq_some_iff.1 hnumber
      have hparent : parent < (graph.addNode node).1.nodes.length := by
        have hbefore := hindices parent (by simp [Call.indices])
        exact hbefore.trans_le (prefix_nodes_addNode graph node).length_le
      change ((graph.addNode node).1.addEdge parent (graph.addNode node).2 attributes).1.Holds
        (nodes ++ [node])
        (edges ++ [⟨parent, (firstArrivals ((nodes ++ [node]).map Node.id)).idxOf node.id, attributes⟩])
      rw [hnode.idxOf_eq hnumber]
      have hascending := hattributes _ rfl
      exact hnode.addEdge ⟨parent, (graph.addNode node).2, attributes⟩ hparent hlt hascending

theorem IsHistory.concat {name : String} {calls : List Call} (h : IsHistory name calls)
    (next : Call) (hindices : ∀ index ∈ next.indices, IsReturned name calls index)
    (hattributes : ∀ edge ∈ next.edge? (registeredIds (calls ++ [next])),
      edge.attributes.Ascending) : IsHistory name (calls ++ [next]) where
  isReturned := by
    intro before other after heq
    rcases List.eq_nil_or_concat after with rfl | ⟨rest, last, rfl⟩
    · obtain ⟨rfl, hlast⟩ := List.append_inj' heq rfl
      rw [List.singleton_inj.1 hlast] at hindices
      exact hindices
    · rw [List.concat_eq_append, ← List.cons_append, ← List.append_assoc] at heq
      exact h.isReturned before other rest (List.append_inj' heq rfl).1
  ascending := by
    intro edge hedge
    rw [requested_concat] at hedge
    rcases List.mem_append.1 hedge with hedge | hedge
    · exact h.ascending edge hedge
    · exact hattributes edge (Option.mem_toList.1 hedge)

theorem Holds.node?_eq (h : graph.Holds nodes edges) (index : Nat) :
    graph.node? index = (firstArrivals (nodes.map Node.id))[index]?.bind fun id =>
      nodes.find? (·.id == id) := by
  rw [← h.ids_eq, ids, List.getElem?_map]
  cases hnode : graph.nodes[index]? with
  | none =>
    rw [node?, hnode]
    rfl
  | some node =>
    have hlt := (List.getElem?_eq_some_iff.1 hnode).1
    have hid : graph.idOf index = node.id := by
      rw [idOf, node?, hnode]
      rfl
    rw [Option.map_some, Option.bind_some, ← h.find?_eq,
      node?_indexOf? (indexOf?_eq_some_iff.2 ⟨hlt, hid⟩)]

/-- Items of which each is counted at one number are counted at all numbers
together. -/
theorem sum_length_filter {α : Type} (items : List α) (pick : α → Nat) (count : Nat)
    (h : ∀ item ∈ items, pick item < count) :
    ((List.range count).map fun index => (items.filter (pick · == index)).length).sum =
      items.length := by
  induction items with
  | nil => simp
  | cons item rest ih =>
    obtain ⟨hitem, hrest⟩ := List.forall_mem_cons.1 h
    have hsplit : ∀ index, ((item :: rest).filter (pick · == index)).length =
        (if pick item = index then 1 else 0) + (rest.filter (pick · == index)).length := by
      intro index
      rw [List.filter_cons]
      by_cases hpick : pick item = index
      · simp [hpick, Nat.add_comm]
      · simp [hpick]
    have hone : ((List.range count).map fun index => if pick item = index then 1 else 0).sum = 1 := by
      have hsum := Finset.sum_ite_eq (Finset.range count) (pick item) fun _ => 1
      rw [if_pos (Finset.mem_range.2 hitem)] at hsum
      exact hsum
    simp only [hsplit, List.sum_map_add, hone, ih hrest, List.length_cons]
    omega

theorem length_edges_eq_children (graph : Graph) : graph.edges.length =
    (graph.indices.map fun index => (graph.children index).length).sum := by
  have hsum := sum_length_filter graph.edges Edge.parent graph.nodes.length
    fun edge hedge => (graph.joins edge hedge).1
  simpa only [indices, children, List.length_map] using hsum.symm

end DocumentViews.Graph

import Mathlib
import DocumentViews.Proofs.Graph.Attributes
import DocumentViews.Proofs.Members
import DocumentViews.Proofs.Schema.Document
import DocumentViews.Proofs.Schema.Preorder

/-!
How a graph grows while nodes are registered. What was there keeps its number
and its contents, new nodes and edges come in the order in which they are
first registered, and of the attributes only the type of an edge is set. So a
walk that is repeated finds everything in place.
-/

namespace DocumentViews.Graph

open Schema

/-- The registration links the nodes of two numbers. -/
def Joins (graph : Graph) (registration : Registration) (i j : Nat) : Prop :=
  ∃ parent child, registration.link? = some (parent, child) ∧
    graph.indexOf? parent = some i ∧ graph.indexOf? child = some j

/-- The second graph is the first after registrations. -/
structure Grows (graph grown : Graph) (registrations : List Registration) : Prop where
  name_eq : grown.name = graph.name
  /-- A node keeps its number and its contents. -/
  prefix_nodes : graph.nodes <+: grown.nodes
  ids_eq : grown.ids = firstArrivals (graph.ids ++ registrations.map (·.node.id))
  find?_eq : ∀ id, grown.nodes.find? (·.id == id) =
    (graph.nodes ++ registrations.map Registration.node).find? (·.id == id)
  /-- The edges keep their order. -/
  prefix_ends : graph.edges.map Edge.ends <+: grown.edges.map Edge.ends
  links_eq : grown.links =
    firstArrivals (graph.links ++ registrations.filterMap Registration.link?)
  attributes?_of_joins : ∀ registration ∈ registrations, ∀ i j, grown.Joins registration i j →
    grown.attributes? i j = some (((graph.attributes? i j).getD []).insert "edge_type"
      (.str registration.node.kind.edgeType))
  attributes?_of_not_joins : ∀ i j,
    (∀ registration ∈ registrations, ¬ grown.Joins registration i j) →
      grown.attributes? i j = graph.attributes? i j

variable {graph : Graph}

theorem prefix_ends_addEdge (graph : Graph) (parent child : Nat) (attributes : Json.Object) :
    graph.edges.map Edge.ends <+: (graph.addEdge parent child attributes).1.edges.map Edge.ends := by
  rw [ends_addEdge]
  split
  · exact List.prefix_rfl
  · exact List.prefix_append _ _

theorem name_addNode (graph : Graph) (node : Node) : (graph.addNode node).1.name = graph.name := by
  unfold addNode
  split
  · rfl
  · rfl

theorem name_addEdge (graph : Graph) (parent child : Nat) (attributes : Json.Object) :
    (graph.addEdge parent child attributes).1.name = graph.name := by
  unfold addEdge
  split
  · rfl
  · split
    · rfl
    · rfl

theorem register_none (graph : Graph) (node : Node) (place : List String) :
    graph.register ⟨none, node, place⟩ = (graph.addNode node).1 := rfl

theorem register_some {table : Node} {index : Nat} (h : graph.indexOf? table.id = some index)
    (node : Node) (place : List String) :
    graph.register ⟨some table, node, place⟩ =
      ((graph.addNode node).1.addEdge index (graph.addNode node).2
        (edgeAttributes node.kind.edgeType)).1 := by
  simp only [register, Option.bind_some, h]
  rfl

theorem name_add (graph : Graph) (node : Node) (parent : Option Nat)
    (attributes : Json.Object) : (graph.add node parent attributes).1.name = graph.name := by
  unfold add
  cases parent with
  | none => exact name_addNode _ _
  | some parent => exact (name_addEdge _ _ _ _).trans (name_addNode _ _)

theorem name_register (graph : Graph) (registration : Registration) :
    (graph.register registration).name = graph.name :=
  name_add _ _ _ _

theorem prefix_nodes_register (graph : Graph) (registration : Registration) :
    graph.nodes <+: (graph.register registration).nodes := by
  rw [register, nodes_add]
  exact prefix_nodes_addNode graph registration.node

theorem prefix_ends_register (graph : Graph) (registration : Registration) :
    graph.edges.map Edge.ends <+: (graph.register registration).edges.map Edge.ends := by
  rw [← edges_addNode graph registration.node]
  unfold register add
  cases registration.around.bind (graph.indexOf? ·.id) with
  | none => exact List.prefix_rfl
  | some parent => exact prefix_ends_addEdge _ _ _ _

theorem indexOf?_register_node (graph : Graph) (registration : Registration) :
    ∃ index, (graph.register registration).indexOf? registration.node.id = some index :=
  ⟨_, indexOf?_add graph registration.node _ _⟩

/-- What a registration links is known when it is registered, and keeps its
numbers. -/
theorem joins_register_iff {registration : Registration} (h : graph.Knows registration.around)
    (later : List Registration) {i j : Nat} :
    ((graph.register registration).registerAll later).Joins registration i j ↔
      (graph.register registration).Joins registration i j := by
  have hkept : ∀ {id index}, (graph.register registration).indexOf? id = some index →
      ((graph.register registration).registerAll later).indexOf? id = some index :=
    fun hindex => indexOf?_registerAll_of_eq_some hindex later
  constructor
  · intro hjoins
    obtain ⟨parent, child, hlink, hparent, hchild⟩ := hjoins
    obtain ⟨table, haround, rfl, rfl, -⟩ := Registration.link?_eq_some_iff.1 hlink
    obtain ⟨index, hindex⟩ := Knows.exists_index (haround ▸ h)
    have hbefore : (graph.register registration).indexOf? table.id = some index :=
      indexOf?_add_of_eq_some hindex _ _ _
    obtain ⟨number, hnumber⟩ := indexOf?_register_node graph registration
    refine ⟨table.id, registration.node.id, hlink, ?_, ?_⟩
    · rw [hbefore, ← hparent, hkept hbefore]
    · rw [hnumber, ← hchild, hkept hnumber]
  · intro hjoins
    obtain ⟨parent, child, hlink, hparent, hchild⟩ := hjoins
    exact ⟨parent, child, hlink, hkept hparent, hkept hchild⟩

/-- A registration sets the type of the edge that it links, and no other
attribute. -/
theorem attributes?_register {registration : Registration} (h : graph.Knows registration.around)
    (i j : Nat) :
    ((graph.register registration).Joins registration i j →
      (graph.register registration).attributes? i j =
        some (((graph.attributes? i j).getD []).insert "edge_type"
          (.str registration.node.kind.edgeType))) ∧
    (¬ (graph.register registration).Joins registration i j →
      (graph.register registration).attributes? i j = graph.attributes? i j) := by
  obtain ⟨around, node, place⟩ := registration
  cases around with
  | none =>
    rw [register_none, attributes?_addNode]
    refine ⟨fun hjoins => ?_, fun _ => rfl⟩
    obtain ⟨parent, child, hlink, -⟩ := hjoins
    simp [Registration.link?] at hlink
  | some table =>
    obtain ⟨index, hindex⟩ := Knows.exists_index h
    have hregister := register_some hindex node place
    have htable := indexOf?_addNode_of_eq_some hindex node
    have hnode := indexOf?_addNode graph node
    have hnumbers : ∀ id, (graph.register ⟨some table, node, place⟩).indexOf? id =
        (graph.addNode node).1.indexOf? id := by
      intro id
      rw [hregister]
      exact indexOf?_congr (nodes_addEdge _ _ _ _) id
    have hjoins_iff : (graph.register ⟨some table, node, place⟩).Joins ⟨some table, node, place⟩ i j ↔
        table.id ≠ node.id ∧ (i, j) = (index, (graph.addNode node).2) := by
      simp only [Joins, Registration.link?_eq_some_iff, hnumbers]
      constructor
      · intro hjoins
        obtain ⟨_, _, ⟨other, hother, rfl, rfl, hne⟩, hparent, hchild⟩ := hjoins
        obtain rfl := Option.some.inj hother
        rw [htable] at hparent
        rw [hnode] at hchild
        exact ⟨hne, Prod.ext (Option.some.inj hparent).symm (Option.some.inj hchild).symm⟩
      · intro hboth
        obtain ⟨hne, heq⟩ := hboth
        obtain ⟨rfl, rfl⟩ := Prod.mk.inj heq
        exact ⟨table.id, node.id, ⟨table, rfl, rfl, rfl, hne⟩, htable, hnode⟩
    rw [hjoins_iff, hregister]
    obtain ⟨hltTable, hidTable⟩ := indexOf?_eq_some_iff.1 htable
    obtain ⟨hltNode, hidNode⟩ := indexOf?_eq_some_iff.1 hnode
    by_cases hloop : table.id = node.id
    · have hsame : index = (graph.addNode node).2 := by
        rw [← hloop, htable] at hnode
        exact Option.some.inj hnode
      rw [hsame, addEdge_self, attributes?_addNode]
      exact ⟨fun hboth => absurd hloop hboth.1, fun _ => rfl⟩
    · have hne : index ≠ (graph.addNode node).2 := by
        intro hsame
        rw [hsame, hidNode] at hidTable
        exact hloop hidTable.symm
      rw [attributes?_addEdge ⟨hltTable, hltNode, hne⟩, attributes?_addNode]
      constructor
      · intro hboth
        rw [if_pos hboth.2]
        cases graph.attributes? i j with
        | none => rfl
        | some old => rfl
      · intro hnone
        rw [if_neg fun heq => hnone ⟨hloop, heq⟩]

/-- Registrations of nodes without payload that link the same nodes set the
same type. -/
theorem Joins.edgeType_eq {first second : Registration} {i j : Nat}
    (hfirst : graph.Joins first i j) (hsecond : graph.Joins second i j)
    (hplain : first.node.IsPlain) (hplain' : second.node.IsPlain) :
    first.node.kind.edgeType = second.node.kind.edgeType := by
  obtain ⟨_, _, hlink, -, hchild⟩ := hfirst
  obtain ⟨_, _, hlink', -, hchild'⟩ := hsecond
  obtain ⟨-, -, -, rfl, -⟩ := Registration.link?_eq_some_iff.1 hlink
  obtain ⟨-, -, -, rfl, -⟩ := Registration.link?_eq_some_iff.1 hlink'
  have hid := (indexOf?_eq_some_iff.1 hchild).2.symm.trans (indexOf?_eq_some_iff.1 hchild').2
  rw [((hplain.id_eq_iff hplain').1 hid).1]

/-- After the first of several registrations the rest still stands under known
nodes. -/
theorem grounded_register {registration : Registration} {rest : List Registration}
    (h : Grounded graph.ids (registration :: rest)) :
    Grounded (graph.register registration).ids rest := by
  apply h.2.mono
  intro id hid
  rw [ids_register, mem_firstArrivals]
  simpa [or_comm] using hid

theorem attributes?_registerAll {registrations : List Registration}
    (hgrounded : Grounded graph.ids registrations)
    (hplain : ∀ registration ∈ registrations, registration.node.IsPlain) (i j : Nat) :
    (∀ registration ∈ registrations, (graph.registerAll registrations).Joins registration i j →
      (graph.registerAll registrations).attributes? i j =
        some (((graph.attributes? i j).getD []).insert "edge_type"
          (.str registration.node.kind.edgeType))) ∧
    ((∀ registration ∈ registrations, ¬ (graph.registerAll registrations).Joins registration i j) →
      (graph.registerAll registrations).attributes? i j = graph.attributes? i j) := by
  induction registrations generalizing graph with
  | nil => exact ⟨by simp, fun _ => rfl⟩
  | cons first rest ih =>
    obtain ⟨htouched, huntouched⟩ := ih (grounded_register hgrounded)
      fun registration hin => hplain registration (List.mem_cons_of_mem _ hin)
    obtain ⟨hjoins, hapart⟩ := attributes?_register hgrounded.1 i j
    rw [← joins_register_iff hgrounded.1 rest] at hjoins hapart
    rw [registerAll_cons]
    constructor
    · intro registration hin hregistration
      by_cases hlater : ∃ later ∈ rest,
          ((graph.register first).registerAll rest).Joins later i j
      · obtain ⟨later, hlaterIn, hlater⟩ := hlater
        rw [htouched later hlaterIn hlater,
          ← hregistration.edgeType_eq hlater (hplain registration hin)
            (hplain later (List.mem_cons_of_mem _ hlaterIn))]
        by_cases hfirst : ((graph.register first).registerAll rest).Joins first i j
        · -- The first registration set the type already.
          rw [hjoins hfirst, Option.getD_some, Members.insert_insert]
        · rw [hapart hfirst]
      · have hnone : ∀ later ∈ rest, ¬ ((graph.register first).registerAll rest).Joins later i j :=
          fun later hlaterIn hlaterJoins => hlater ⟨later, hlaterIn, hlaterJoins⟩
        rcases List.mem_cons.1 hin with rfl | hin
        · rw [huntouched hnone, hjoins hregistration]
        · exact absurd hregistration (hnone registration hin)
    · intro hnone
      rw [huntouched fun later hin => hnone later (List.mem_cons_of_mem _ hin),
        hapart (hnone first List.mem_cons_self)]

theorem prefix_nodes_registerAll (graph : Graph) (registrations : List Registration) :
    graph.nodes <+: (graph.registerAll registrations).nodes := by
  induction registrations generalizing graph with
  | nil => exact List.prefix_rfl
  | cons registration rest ih =>
    exact (prefix_nodes_register graph registration).trans (ih (graph.register registration))

theorem prefix_ends_registerAll (graph : Graph) (registrations : List Registration) :
    graph.edges.map Edge.ends <+: (graph.registerAll registrations).edges.map Edge.ends := by
  induction registrations generalizing graph with
  | nil => exact List.prefix_rfl
  | cons registration rest ih =>
    exact (prefix_ends_register graph registration).trans (ih (graph.register registration))

theorem name_registerAll (graph : Graph) (registrations : List Registration) :
    (graph.registerAll registrations).name = graph.name := by
  induction registrations generalizing graph with
  | nil => rfl
  | cons registration rest ih =>
    exact (ih (graph.register registration)).trans (name_register graph registration)

theorem grows_registerAll {registrations : List Registration}
    (hgrounded : Grounded graph.ids registrations)
    (hplain : ∀ registration ∈ registrations, registration.node.IsPlain) :
    graph.Grows (graph.registerAll registrations) registrations where
  name_eq := name_registerAll graph registrations
  prefix_nodes := prefix_nodes_registerAll graph registrations
  ids_eq := ids_registerAll graph registrations
  find?_eq := find?_registerAll graph registrations
  prefix_ends := prefix_ends_registerAll graph registrations
  links_eq := links_registerAll hgrounded
  attributes?_of_joins := fun registration hin i j =>
    (attributes?_registerAll hgrounded hplain i j).1 registration hin
  attributes?_of_not_joins := fun i j => (attributes?_registerAll hgrounded hplain i j).2

/-- A graph that grows by what it holds already does not change. -/
theorem Grows.eq_of_grows {grown again : Graph} {registrations : List Registration}
    (h : graph.Grows grown registrations) (hagain : grown.Grows again registrations) :
    again = grown := by
  have hids : again.ids = grown.ids := by
    rw [hagain.ids_eq, h.ids_eq]
    exact firstArrivals_append_of_subset fun id hid =>
      mem_firstArrivals.2 (List.mem_append_right _ hid)
  have hlinks : again.links = grown.links := by
    rw [hagain.links_eq, h.links_eq]
    exact firstArrivals_append_of_subset fun link hlink =>
      mem_firstArrivals.2 (List.mem_append_right _ hlink)
  have hnodes : grown.nodes = again.nodes := by
    apply hagain.prefix_nodes.eq_of_length
    simpa [ids] using (congrArg List.length hids).symm
  have hends : grown.edges.map Edge.ends = again.edges.map Edge.ends := by
    apply hagain.prefix_ends.eq_of_length
    simpa [links] using (congrArg List.length hlinks).symm
  have hjoins : ∀ registration i j, again.Joins registration i j ↔ grown.Joins registration i j := by
    intro registration i j
    simp only [Joins, indexOf?_congr hnodes]
  refine ext_of_attributes? hagain.name_eq hnodes.symm hends.symm fun i j => ?_
  by_cases htouched : ∃ registration ∈ registrations, grown.Joins registration i j
  · obtain ⟨registration, hin, hregistration⟩ := htouched
    -- The type is set a second time to what it is.
    rw [hagain.attributes?_of_joins registration hin i j ((hjoins registration i j).2 hregistration),
      h.attributes?_of_joins registration hin i j hregistration, Option.getD_some,
      Members.insert_insert]
  · apply hagain.attributes?_of_not_joins
    intro registration hin hregistration
    exact htouched ⟨registration, hin, (hjoins registration i j).1 hregistration⟩

/-- The node of a number, by way of its identifier, has that number. -/
theorem bind_indexOf?_node? {parent : Option Nat}
    (h : ∀ index ∈ parent, index < graph.nodes.length) :
    (parent.bind graph.node?).bind (graph.indexOf? ·.id) = parent := by
  cases parent with
  | none => rfl
  | some index =>
    have hlt := h index rfl
    obtain ⟨node, hnode⟩ : ∃ node, graph.node? index = some node :=
      ⟨_, List.getElem?_eq_getElem hlt⟩
    rw [Option.bind_some, hnode, Option.bind_some, indexOf?_eq_some_iff]
    exact ⟨hlt, by rw [idOf, hnode]; rfl⟩

theorem knows_node? (graph : Graph) (parent : Option Nat) :
    graph.Knows (parent.bind graph.node?) := by
  intro table htable
  obtain ⟨index, -, hnode⟩ := Option.bind_eq_some_iff.1 htable
  exact List.mem_map_of_mem (List.mem_of_getElem? hnode)

/-- The registrations of a fragment under a key below a node of a graph. Nothing
else of the graph takes part. -/
def trace (graph : Graph) (fragment : Json) (name : String) (parent : Option Nat) : Trace :=
  traceFragment (parent.bind graph.node?) fragment name (some name) [name]

theorem isUnder_trace (graph : Graph) (fragment : Json) (name : String) (parent : Option Nat) :
    (graph.trace fragment name parent).IsUnder (parent.bind graph.node?) [] :=
  isUnder_traceFragment _ fragment name (some name) []

theorem grounded_trace (graph : Graph) (fragment : Json) (name : String) (parent : Option Nat) :
    Grounded graph.ids (graph.trace fragment name parent).registrations :=
  (graph.isUnder_trace fragment name parent).grounded (graph.knows_node? parent)

theorem walk_eq_follow {parent : Option Nat} (h : ∀ index ∈ parent, index < graph.nodes.length)
    (fragment : Json) (name : String) :
    walk graph fragment name parent = graph.follow (graph.trace fragment name parent) := by
  have hfollow := walkFragment_eq_follow graph (graph.knows_node? parent) fragment name (some name)
    [name]
  rwa [bind_indexOf?_node? h] at hfollow

theorem snd_follow (graph : Graph) (trace : Trace) : (graph.follow trace).2 =
    trace.result.map (·.bind ((graph.follow trace).1.indexOf? ·.id)) := rfl

theorem grows_follow_trace (graph : Graph) (fragment : Json) (name : String)
    (parent : Option Nat) :
    graph.Grows (graph.follow (graph.trace fragment name parent)).1
      (graph.trace fragment name parent).registrations :=
  grows_registerAll (graph.grounded_trace fragment name parent)
    (graph.isUnder_trace fragment name parent).isPlain

namespace Grows

variable {grown : Graph} {registrations : List Registration}

/-- A node that was there keeps its number. -/
theorem node?_eq (h : graph.Grows grown registrations) {index : Nat}
    (hlt : index < graph.nodes.length) : grown.node? index = graph.node? index := by
  obtain ⟨later, hlater⟩ := h.prefix_nodes
  rw [node?, node?, ← hlater, List.getElem?_append_left hlt]

theorem eq_of_idOf_eq (h : graph.Grows grown registrations) {old index : Nat}
    (hold : old < graph.nodes.length) (hindex : index < grown.nodes.length)
    (hid : graph.idOf old = grown.idOf index) : old = index := by
  refine idOf_injective (hold.trans_le h.prefix_nodes.length_le) hindex ?_
  rw [← hid, idOf, idOf, h.node?_eq hold]

/-- Every node was there or was registered. -/
theorem mem_nodes (h : graph.Grows grown registrations) {node : Node} (hin : node ∈ grown.nodes) :
    node ∈ graph.nodes ∨ ∃ registration ∈ registrations, registration.node = node := by
  obtain ⟨index, hlt, rfl⟩ := List.getElem_of_mem hin
  have hnode : grown.node? index = some grown.nodes[index] := List.getElem?_eq_getElem hlt
  rw [node?_indexOf? (indexOf?_eq_some_iff.2 ⟨hlt, rfl⟩), h.find?_eq] at hnode
  exact (List.mem_append.1 (List.mem_of_find?_eq_some hnode)).imp_right List.mem_map.1

/-- Every edge was there or joins what a registration links. -/
theorem isParent (h : graph.Grows grown registrations) {i j : Nat} (hstep : grown.IsParent i j) :
    graph.IsParent i j ∨ ∃ registration ∈ registrations, grown.Joins registration i j := by
  have hlink := hstep.mem_links
  rw [h.links_eq, mem_firstArrivals, List.mem_append] at hlink
  rcases hlink with hold | hnew
  · obtain ⟨i', j', hstep', hi, hj⟩ := exists_isParent_of_mem_links hold
    rw [← h.eq_of_idOf_eq hstep'.lt_left hstep.lt_left hi,
      ← h.eq_of_idOf_eq hstep'.lt_right hstep.lt_right hj]
    exact Or.inl hstep'
  · obtain ⟨registration, hin, hlink⟩ := List.mem_filterMap.1 hnew
    exact Or.inr ⟨registration, hin, _, _, hlink,
      indexOf?_eq_some_iff.2 ⟨hstep.lt_left, rfl⟩, indexOf?_eq_some_iff.2 ⟨hstep.lt_right, rfl⟩⟩

/-- A grown graph begins a walk as the graph before did. -/
theorem trace_eq (h : graph.Grows grown registrations) {parent : Option Nat}
    (hparent : ∀ index ∈ parent, index < graph.nodes.length) (fragment : Json) (name : String) :
    grown.trace fragment name parent = graph.trace fragment name parent := by
  have hnode : parent.bind grown.node? = parent.bind graph.node? := by
    cases parent with
    | none => rfl
    | some index => exact h.node?_eq (hparent index rfl)
  rw [trace, trace, hnode]

end Grows

/-- Whatever a graph holds, a walk makes it grow by the registrations of the
fragment, up to the first offending part, and returns what they end with. They
come in the order of their places when all objects are in order. -/
theorem grows_walk {parent : Option Nat} (hparent : ∀ index ∈ parent, index < graph.nodes.length)
    (fragment : Json) (name : String) :
    graph.Grows (walk graph fragment name parent).1
        (graph.trace fragment name parent).registrations ∧
      (walk graph fragment name parent).2 = (graph.trace fragment name parent).result.map
        (·.bind ((walk graph fragment name parent).1.indexOf? ·.id)) ∧
      (fragment.IsOrdered →
        ((graph.trace fragment name parent).registrations.map Registration.place).Pairwise
          (· ≤ ·)) := by
  rw [walk_eq_follow hparent]
  refine ⟨graph.grows_follow_trace fragment name parent, snd_follow graph _, fun hordered => ?_⟩
  exact (isPreorder_traceFragment _ hordered name (some name) [name]).ascends

/-- A table with a column and with a property of no kind behind it. -/
def brokenFragment : Json :=
  .obj [("properties", .obj [("a", .obj [("type", .str "string")]),
    ("z", .obj [("type", .str "date")])])]

theorem isOrdered_brokenFragment : brokenFragment.IsOrdered := by
  have htype : ∀ type, (Json.obj [("type", .str type)]).IsOrdered := fun type =>
    .obj _ (List.pairwise_singleton _ _) fun entry hentry => by
      rw [List.mem_singleton.1 hentry]
      exact .str type
  refine .obj _ (List.pairwise_singleton _ _) fun entry hentry => ?_
  rw [List.mem_singleton.1 hentry]
  refine .obj _ (List.pairwise_pair.2 (by decide)) fun property hproperty => ?_
  rcases List.mem_pair.1 hproperty with rfl | rfl
  · exact htype "string"
  · exact htype "date"

/-- A graph with a root table alone. -/
def rootAlone : Graph :=
  ((empty "g").addNode (.table "roots" none)).1

theorem grows_walk_brokenFragment :
    (∀ index ∈ some 0, index < rootAlone.nodes.length) ∧ brokenFragment.IsOrdered ∧
      rootAlone.Grows (walk rootAlone brokenFragment "b" (some 0)).1
        (rootAlone.trace brokenFragment "b" (some 0)).registrations ∧
      (walk rootAlone brokenFragment "b" (some 0)).2 =
        (rootAlone.trace brokenFragment "b" (some 0)).result.map
          (·.bind ((walk rootAlone brokenFragment "b" (some 0)).1.indexOf? ·.id)) ∧
      ((rootAlone.trace brokenFragment "b" (some 0)).registrations.map
        Registration.place).Pairwise (· ≤ ·) := by
  have hparent : ∀ index ∈ some 0, index < rootAlone.nodes.length := by decide +kernel
  obtain ⟨hgrows, hresult, hplaces⟩ := grows_walk hparent brokenFragment "b"
  exact ⟨hparent, isOrdered_brokenFragment, hgrows, hresult, hplaces isOrdered_brokenFragment⟩

/-- A walk that is repeated changes nothing and returns the same, be it a node,
nothing or an error. -/
theorem walk_walk {parent : Option Nat} (hparent : ∀ index ∈ parent, index < graph.nodes.length)
    (fragment : Json) (name : String) :
    walk (walk graph fragment name parent).1 fragment name parent =
      walk graph fragment name parent := by
  have hgrows := graph.grows_follow_trace fragment name parent
  have hlt : ∀ index ∈ parent,
      index < (graph.follow (graph.trace fragment name parent)).1.nodes.length :=
    fun index hindex => (hparent index hindex).trans_le hgrows.prefix_nodes.length_le
  rw [walk_eq_follow hparent, walk_eq_follow hlt, hgrows.trace_eq hparent]
  have hagain := grows_follow_trace (graph.follow (graph.trace fragment name parent)).1 fragment
    name parent
  rw [hgrows.trace_eq hparent] at hagain
  have hsame := hgrows.eq_of_grows hagain
  exact Prod.ext hsame (by rw [snd_follow, hsame, ← snd_follow])

/-- The walk stops behind a table and a column, and stops there again. -/
theorem walk_walk_brokenFragment :
    (∀ index ∈ some 0, index < rootAlone.nodes.length) ∧
      (walk rootAlone brokenFragment "b" (some 0)).1.nodes.length = 3 ∧
      (walk rootAlone brokenFragment "b" (some 0)).2.toOption = none ∧
      walk (walk rootAlone brokenFragment "b" (some 0)).1 brokenFragment "b" (some 0) =
        walk rootAlone brokenFragment "b" (some 0) := by
  have hparent : ∀ index ∈ some 0, index < rootAlone.nodes.length := by decide +kernel
  refine ⟨hparent, by decide +kernel, by decide +kernel, ?_⟩
  exact walk_walk hparent brokenFragment "b"

end DocumentViews.Graph

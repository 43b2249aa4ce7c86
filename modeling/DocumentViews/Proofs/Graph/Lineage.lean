import Mathlib
import DocumentViews.Proofs.Graph.Ancestry
import DocumentViews.Proofs.Graph.DegreeCount

/-!
What the ancestry of a node holds in a graph without cycles. The root is the
node with the smallest identifier among the node and its ancestors that have no
parents. The ancestors beside the direct parents are listed once, each after
its own parents. Names and keys are those along the least path from the root,
and there is one such path only.
-/

namespace DocumentViews

open Relation

/-- What the ancestry of a node says about the graph above it. -/
structure Ancestry.IsExact (ancestry : Ancestry) (graph : Graph) (node : Nat) : Prop where
  node_eq : ancestry.node = node
  reaches_root : graph.Reaches ancestry.root node
  parents_root : graph.parents ancestry.root = []
  root_least : ∀ other, graph.Reaches other node → graph.parents other = [] →
    other ≠ ancestry.root → graph.idOf ancestry.root < graph.idOf other
  directParents_eq : ancestry.directParents = graph.parents node
  ancestors_nodup : ancestry.ancestors.Nodup
  mem_ancestors : ∀ other, other ∈ ancestry.ancestors ↔
    TransGen graph.IsParent other node ∧ other ∉ graph.parents node
  /-- The parents that are not listed before are direct parents of the node. -/
  parents_before : ∀ before other after, ancestry.ancestors = before ++ other :: after →
    ∀ parent ∈ graph.parents other, parent ∈ before ∨ parent ∈ graph.parents node
  /-- Names and keys belong to the nodes of the one least path. -/
  path : ∃ (path : List Nat) (nodes : List Node),
    IsLeastPath graph.IsParent graph.idOf ancestry.root node path ∧
      (∀ other, IsLeastPath graph.IsParent graph.idOf ancestry.root node other → other = path) ∧
      path.map graph.node? = nodes.map some ∧
      ancestry.namePath = nodes.map Node.name ∧
      ancestry.keyPath = (nodes.drop 1).filterMap Node.key

namespace Graph

variable {graph : Graph} {start node other : Nat}

/-- Nodes of a graph with the same identifiers are the same nodes. -/
theorem eq_of_map_idOf {first second : List Nat}
    (hfirst : ∀ node ∈ first, node < graph.nodes.length)
    (hsecond : ∀ node ∈ second, node < graph.nodes.length)
    (hsame : first.map graph.idOf = second.map graph.idOf) : first = second := by
  induction first generalizing second with
  | nil => exact (List.map_eq_nil_iff.1 hsame.symm).symm
  | cons head rest ih =>
    cases second with
    | nil => simp at hsame
    | cons head' rest' =>
      obtain ⟨hhead, hrest⟩ := List.forall_mem_cons.1 hfirst
      obtain ⟨hhead', hrest'⟩ := List.forall_mem_cons.1 hsecond
      obtain ⟨hid, hids⟩ := List.cons.inj hsame
      rw [idOf_injective hhead hhead' hid, ih hrest hrest' hids]

/-- There is one least path between two nodes of a graph. -/
theorem isLeastPath_unique {first second : List Nat} (hstart : start < graph.nodes.length)
    (hfirst : IsLeastPath graph.IsParent graph.idOf start node first)
    (hsecond : IsLeastPath graph.IsParent graph.idOf start node second) : first = second :=
  eq_of_map_idOf (fun _ => IsPathTo.lt_of_mem hfirst.isPathTo hstart)
    (fun _ => IsPathTo.lt_of_mem hsecond.isPathTo hstart) (hfirst.map_eq hsecond)

/-- The ancestors are what leads to a node in more than one step only. -/
theorem mem_ancestors_ancestry (hacyclic : ¬ graph.HasCycle) (hnode : node < graph.nodes.length) :
    other ∈ (graph.ancestry node).ancestors ↔
      TransGen graph.IsParent other node ∧ other ∉ graph.parents node := by
  have hmem : other ∈ (graph.ancestry node).ancestors ↔
      graph.Reaches other node ∧ other ≠ node ∧ other ∉ graph.parents node := by
    simp only [ancestry, List.mem_filter, mem_topologicalOrderWithin_lineage hacyclic hnode,
      decide_eq_true_eq]
  have hproper : TransGen graph.IsParent other node ↔
      graph.Reaches other node ∧ other ≠ node := by
    rw [Reaches, reflTransGen_iff_eq_or_transGen]
    constructor
    · intro h
      refine ⟨Or.inr h, fun hsame => hacyclic ⟨node, ?_⟩⟩
      exact hsame ▸ h
    · intro hboth
      obtain ⟨h, hne⟩ := hboth
      exact h.resolve_left (Ne.symm hne)
  rw [hmem, hproper, and_assoc]

/-- A parent of a listed ancestor is listed before it, unless it is a direct
parent of the node. -/
theorem parents_before_ancestry (hacyclic : ¬ graph.HasCycle) (hnode : node < graph.nodes.length)
    {before after : List Nat} (hlist : (graph.ancestry node).ancestors = before ++ other :: after)
    {parent : Nat} (hparent : parent ∈ graph.parents other) :
    parent ∈ before ∨ parent ∈ graph.parents node := by
  have hother : TransGen graph.IsParent other node :=
    ((mem_ancestors_ancestry hacyclic hnode).1 (by rw [hlist]; simp)).1
  have hedge : graph.IsParent parent other := isParent_iff_mem_parents.2 hparent
  obtain ⟨early, late, horder, hearly, hlate⟩ := List.filter_eq_append_iff.1 hlist
  obtain ⟨skipped, rest, rfl, hskipped, -, -⟩ := List.filter_eq_cons_iff.1 hlate
  have hready : graph.IsReady (graph.lineage node) (early ++ skipped) other := by
    have hgreedy := isGreedyOrder_lineage hnode
    rw [horder, ← List.append_assoc] at hgreedy
    simpa using hgreedy.isReady
  have hin : parent ∈ early ++ skipped :=
    hready.closed parent ((mem_lineage hnode).2 (hother.to_reflTransGen.head hedge)) hedge
  by_cases hdirect : parent ∈ graph.parents node
  · exact Or.inr hdirect
  · have hne : parent ≠ node := by
      intro hsame
      exact hacyclic ⟨node, (TransGen.single (hsame ▸ hedge)).trans hother⟩
    have hkept : decide (parent ≠ node ∧ parent ∉ graph.parents node) = true := by
      simp [hne, hdirect]
    refine Or.inl ?_
    rcases List.mem_append.1 hin with hin | hin
    · rw [← hearly]
      exact List.mem_filter.2 ⟨hin, hkept⟩
    · exact absurd hkept (hskipped parent hin)

/-- Every number of a path stands for a node. -/
theorem exists_nodes_of_lt {path : List Nat} (h : ∀ node ∈ path, node < graph.nodes.length) :
    ∃ nodes : List Node, path.map graph.node? = nodes.map some := by
  induction path with
  | nil => exact ⟨[], rfl⟩
  | cons head rest ih =>
    obtain ⟨hhead, hrest⟩ := List.forall_mem_cons.1 h
    obtain ⟨nodes, hnodes⟩ := ih hrest
    refine ⟨graph.nodes[head] :: nodes, ?_⟩
    rw [List.map_cons, List.map_cons, hnodes, node?, List.getElem?_eq_getElem hhead]

theorem filterMap_of_map {path : List Nat} {nodes : List Node}
    (h : path.map graph.node? = nodes.map some) : path.filterMap graph.node? = nodes := by
  calc
    path.filterMap graph.node? = (path.map graph.node?).filterMap id := by
      rw [List.filterMap_map, Function.id_comp]
    _ = nodes := by
      rw [h, List.filterMap_map, Function.id_comp, List.filterMap_some]

/-- Names and keys of an ancestry are those along the one least path. -/
theorem path_ancestry (hnode : node < graph.nodes.length)
    (hreach : graph.Reaches (graph.ancestry node).root node) :
    ∃ (path : List Nat) (nodes : List Node),
      IsLeastPath graph.IsParent graph.idOf (graph.ancestry node).root node path ∧
        (∀ other, IsLeastPath graph.IsParent graph.idOf (graph.ancestry node).root node other →
          other = path) ∧
        path.map graph.node? = nodes.map some ∧
        (graph.ancestry node).namePath = nodes.map Node.name ∧
        (graph.ancestry node).keyPath = (nodes.drop 1).filterMap Node.key := by
  have hroot := hreach.lt_start hnode
  have hleast := isLeastPath_shortestPath hnode hreach
  obtain ⟨nodes, hnodes⟩ := exists_nodes_of_lt fun _ => IsPathTo.lt_of_mem hleast.isPathTo hroot
  refine ⟨_, nodes, hleast, fun other hother => isLeastPath_unique hroot hother hleast, hnodes, ?_,
    ?_⟩
  · exact congrArg (List.map Node.name) (filterMap_of_map hnodes)
  · apply congrArg (List.filterMap Node.key)
    apply filterMap_of_map
    rw [List.map_drop, List.map_drop, ← hnodes]
    rfl

/-- The ancestry of a node in a graph without cycles is exact. -/
theorem isExact_ancestry (hacyclic : ¬ graph.HasCycle) (hnode : node < graph.nodes.length) :
    (graph.ancestry node).IsExact graph node := by
  obtain ⟨hreach, hnone, hleast⟩ := root_ancestry hacyclic hnode
  have hfree : ∀ {other}, graph.parents other = [] → ∀ parent, ¬ graph.IsParent parent other := by
    intro other hempty parent hparent
    rw [isParent_iff_mem_parents, hempty] at hparent
    exact List.not_mem_nil hparent
  refine ⟨rfl, hreach, ?_, ?_, rfl, ?_, fun other => mem_ancestors_ancestry hacyclic hnode,
    fun before other after hlist parent => parents_before_ancestry hacyclic hnode hlist,
    path_ancestry hnode hreach⟩
  · apply List.eq_nil_iff_forall_not_mem.2
    intro parent hparent
    exact hnone parent (isParent_iff_mem_parents.2 hparent)
  · intro other hother hempty hne
    apply lt_of_le_of_ne (hleast other hother (hfree hempty))
    intro hsame
    exact hne (idOf_injective (hother.lt_start hnode) (hreach.lt_start hnode) hsame.symm)
  · exact (isGreedyOrder_lineage hnode).nodup.filter _

/-- A graph in which every edge leads to a later node has no cycle. -/
theorem not_hasCycle_of_lt (h : ∀ edge ∈ graph.edges, edge.parent < edge.child) :
    ¬ graph.HasCycle := by
  intro hsome
  obtain ⟨node, hcycle⟩ := hsome
  have hless : TransGen (· < ·) node node := by
    apply hcycle.lift id
    intro parent child hstep
    obtain ⟨edge, hedge, hends⟩ := List.mem_map.1 (isParent_iff_mem_ends.1 hstep)
    obtain ⟨rfl, rfl⟩ := Prod.mk.inj hends
    exact h edge hedge
  rw [transGen_eq_self] at hless
  exact lt_irrefl node hless

/-- Two tables without parents, and two ways of one length from the first of
them down to a column. -/
def joinedTables : Graph where
  name := "g"
  nodes := [.table "roots" none, .table "zs" none, .table "as" (some "a"), .table "bs" (some "b"),
    .table "cs" none, .field "x" (some "x") .string]
  edges := [⟨0, 3, []⟩, ⟨0, 2, []⟩, ⟨1, 3, []⟩, ⟨3, 4, []⟩, ⟨2, 4, []⟩, ⟨4, 5, []⟩]
  ids_nodup := by decide +kernel
  ends_nodup := by decide
  joins := by decide +kernel

theorem isExact_ancestry_joinedTables :
    ¬ joinedTables.HasCycle ∧ 5 < joinedTables.nodes.length ∧
      (joinedTables.ancestry 5).IsExact joinedTables 5 := by
  have hacyclic : ¬ joinedTables.HasCycle := not_hasCycle_of_lt (by decide)
  have hnode : 5 < joinedTables.nodes.length := by decide
  exact ⟨hacyclic, hnode, isExact_ancestry hacyclic hnode⟩

/-- Of the two ways the one through the smaller identifier counts. -/
example : (joinedTables.ancestry 5).namePath = ["roots", "as", "cs", "x"] := by decide +kernel

end Graph

end DocumentViews

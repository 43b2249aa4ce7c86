import Mathlib
import DocumentViews.Graph.Ancestry
import DocumentViews.Proofs.Graph.ShortestPath
import DocumentViews.Proofs.Graph.TopologicalOrder

/-!
The ancestry of a node in a graph without cycles. Its lineage holds what
reaches it, its root is the node of the smallest identifier among those above it
that have no parents, and the path is the least one from the root down to it.
-/

namespace DocumentViews

open Relation

namespace Graph

variable {graph : Graph}

/-- The lineage of a node holds what reaches it. -/
theorem mem_lineage {node other : Nat} (hnode : node < graph.nodes.length) :
    other ∈ graph.lineage node ↔ graph.Reaches other node := by
  have hup : ReflTransGen (fun child parent => parent ∈ graph.parents child) node other ↔
      graph.Reaches other node := by
    rw [Reaches, ← reflTransGen_swap]
    have hsame : (fun child parent => parent ∈ graph.parents child) =
        Function.swap graph.IsParent := by
      funext child parent
      exact propext isParent_iff_mem_parents.symm
    rw [hsame]
  rw [lineage, List.mem_cons, mem_found_breadthFirst graph.parents_nodup, ← hup]
  constructor
  · intro heither
    rcases heither with rfl | ⟨h, -⟩
    · exact ReflTransGen.refl
    · exact exists_within_iff.1 ⟨_, h⟩
  · intro h
    obtain ⟨count, hcount⟩ := exists_within_iff.2 h
    refine or_iff_not_imp_left.2 fun hne => ⟨?_, hne⟩
    exact hcount.of_bounded hnode fun child parent hparent =>
      (isParent_iff_mem_parents.2 hparent).lt_left

theorem lineage_nodup (graph : Graph) (node : Nat) : (graph.lineage node).Nodup := by
  refine List.nodup_cons.2 ⟨fun h => ?_, nodup_found_breadthFirst graph.parents_nodup _⟩
  exact ((mem_found_breadthFirst graph.parents_nodup _).1 h).2 rfl

/-- A lineage is closed under parents. -/
theorem mem_lineage_of_isParent {node parent child : Nat} (hnode : node < graph.nodes.length)
    (hchild : child ∈ graph.lineage node) (hparent : graph.IsParent parent child) :
    parent ∈ graph.lineage node := by
  rw [mem_lineage hnode] at hchild ⊢
  exact hchild.head hparent

theorem isGreedyOrder_lineage {node : Nat} (hnode : node < graph.nodes.length) :
    graph.IsGreedyOrder (graph.lineage node) []
      (graph.topologicalOrderWithin (graph.lineage node)) :=
  isGreedyOrder_topologicalOrderWithin (graph.lineage_nodup node)
    fun _ hother => Reaches.lt_start ((mem_lineage hnode).1 hother) hnode

/-- Without a cycle the order of a lineage leaves out nothing. -/
theorem mem_topologicalOrderWithin_lineage (hacyclic : ¬ graph.HasCycle) {node other : Nat}
    (hnode : node < graph.nodes.length) :
    other ∈ graph.topologicalOrderWithin (graph.lineage node) ↔ graph.Reaches other node := by
  rw [(isGreedyOrder_lineage hnode).mem_iff, mem_lineage hnode]
  apply and_iff_left
  intro hcycle
  obtain ⟨top, htop, -⟩ := hcycle
  exact hacyclic ⟨top, htop.lift id fun _ _ hstep => hstep.2.2⟩

/-- The root is the first of those above a node that have no parents. -/
theorem root_ancestry (hacyclic : ¬ graph.HasCycle) {node : Nat}
    (hnode : node < graph.nodes.length) :
    graph.Reaches (graph.ancestry node).root node ∧
      (∀ parent, ¬ graph.IsParent parent (graph.ancestry node).root) ∧
      ∀ other, graph.Reaches other node → (∀ parent, ¬ graph.IsParent parent other) →
        graph.idOf (graph.ancestry node).root ≤ graph.idOf other := by
  have horder := isGreedyOrder_lineage hnode
  have hself : node ∈ graph.topologicalOrderWithin (graph.lineage node) :=
    (mem_topologicalOrderWithin_lineage hacyclic hnode).2 .refl
  cases hlist : graph.topologicalOrderWithin (graph.lineage node) with
  | nil =>
    rw [hlist] at hself
    simp at hself
  | cons top rest =>
    rw [hlist] at horder
    obtain ⟨hready, hleast, -⟩ := horder
    have hroot : (graph.ancestry node).root = top := by
      simp only [ancestry, hlist, List.head?_cons, Option.getD_some]
    rw [hroot]
    refine ⟨(mem_lineage hnode).1 hready.mem, ?_, ?_⟩
    · intro parent hparent
      have hin := mem_lineage_of_isParent hnode hready.mem hparent
      exact List.not_mem_nil (hready.closed parent hin hparent)
    · intro other hother hnone
      refine hleast other ⟨(mem_lineage hnode).2 hother, List.not_mem_nil, ?_⟩
      exact fun parent _ hparent => absurd hparent (hnone parent)

/-- A node that reaches whatever is above another is the root of the other. -/
theorem root_ancestry_eq (hacyclic : ¬ graph.HasCycle) {node top : Nat}
    (hnode : node < graph.nodes.length)
    (htop : ∀ other, graph.Reaches other node → graph.Reaches top other) :
    (graph.ancestry node).root = top := by
  obtain ⟨hreach, hnone, -⟩ := root_ancestry hacyclic hnode
  rcases ReflTransGen.cases_tail (htop _ hreach) with heq | ⟨parent, -, hstep⟩
  · exact heq
  · exact absurd hstep (hnone parent)

/-- The children of a node that are among the members, by their identifiers. -/
def sortedChildren (graph : Graph) (members : List Nat) (node : Nat) : List Nat :=
  (graph.sortById ((graph.children node).filter (· ∈ members))).map Prod.snd

theorem mem_sortedChildren {members : List Nat} {node child : Nat} :
    child ∈ graph.sortedChildren members node ↔ graph.IsParent node child ∧ child ∈ members := by
  have hlt : ∀ other ∈ (graph.children node).filter (· ∈ members),
      other < graph.nodes.length := fun other hother =>
    lt_of_mem_children (List.mem_of_mem_filter hother)
  rw [sortedChildren, List.mem_map]
  constructor
  · intro hsome
    obtain ⟨⟨id, other⟩, hentry, rfl⟩ := hsome
    obtain ⟨hchild, hin⟩ := List.mem_filter.1 ((mem_sortById hlt).1 hentry).2
    exact ⟨hchild, of_decide_eq_true hin⟩
  · intro hboth
    obtain ⟨hchild, hin⟩ := hboth
    refine ⟨(graph.idOf child, child), (mem_sortById hlt).2 ⟨rfl, ?_⟩, rfl⟩
    exact List.mem_filter.2 ⟨hchild, decide_eq_true hin⟩

theorem sorted_sortedChildren (graph : Graph) (members : List Nat) (node : Nat) :
    (graph.sortedChildren members node).Pairwise (graph.idOf · < graph.idOf ·) := by
  have hlt : ∀ other ∈ (graph.children node).filter (· ∈ members),
      other < graph.nodes.length := fun other hother =>
    lt_of_mem_children (List.mem_of_mem_filter hother)
  have hascending : (graph.sortById ((graph.children node).filter (· ∈ members))).Ascending :=
    Members.ascending_ofList _
  refine List.pairwise_map.2 ((List.pairwise_map.1 hascending).imp_of_mem ?_)
  intro first second hfirst hsecond hless
  rwa [((mem_sortById hlt).1 hfirst).1, ((mem_sortById hlt).1 hsecond).1] at hless

theorem IsPathTo.lt_of_mem {start node other : Nat} {path : List Nat}
    (h : IsPathTo graph.IsParent start node path) (hstart : start < graph.nodes.length)
    (hin : other ∈ path) : other < graph.nodes.length := by
  induction h with
  | start => exact List.mem_singleton.1 hin ▸ hstart
  | step _ hnext ih =>
    rcases List.mem_append.1 hin with hin | hin
    · exact ih hin
    · exact List.mem_singleton.1 hin ▸ hnext.lt_right

theorem exists_isPathTo_of_reaches {start node : Nat} (h : graph.Reaches start node) :
    ∃ path, IsPathTo graph.IsParent start node path := by
  induction h with
  | refl => exact ⟨[start], .start⟩
  | tail _ hstep ih =>
    obtain ⟨path, hpath⟩ := ih
    exact ⟨_, hpath.step hstep⟩

/-- A path down to a node stays within the lineage of the node. -/
theorem isPathTo_sortedChildren {start node target : Nat} {path : List Nat}
    (htarget : target < graph.nodes.length) (hreach : graph.Reaches node target) :
    IsPathTo (IsNeighbour (graph.sortedChildren (graph.lineage target))) start node path ↔
      IsPathTo graph.IsParent start node path := by
  constructor
  · intro h
    clear hreach
    induction h with
    | start => exact .start
    | step _ hnext ih => exact ih.step (mem_sortedChildren.1 hnext).1
  · intro h
    induction h with
    | start => exact .start
    | step _ hnext ih =>
      refine (ih (hreach.head hnext)).step (mem_sortedChildren.2 ⟨hnext, ?_⟩)
      exact (mem_lineage htarget).2 hreach

/-- The path from a node above another is the least one. -/
theorem isLeastPath_shortestPath {start node : Nat} (hnode : node < graph.nodes.length)
    (hreach : graph.Reaches start node) :
    IsLeastPath graph.IsParent graph.idOf start node
      (graph.shortestPath (graph.lineage node) start node) := by
  have hlt := hreach.lt_start hnode
  obtain ⟨path, hpath⟩ := exists_isPathTo_of_reaches hreach
  have hwithin : Within (graph.sortedChildren (graph.lineage node)) start graph.nodes.length node :=
    (((isPathTo_sortedChildren hnode ReflTransGen.refl).2 hpath).within
      (Nat.le_succ path.length)).of_bounded hlt fun _ _ hchild =>
        (mem_sortedChildren.1 hchild).1.lt_right
  have hleast := isLeastPath_pathTo (graph.sorted_sortedChildren (graph.lineage node)) hwithin
  refine ⟨(isPathTo_sortedChildren hnode ReflTransGen.refl).1 hleast.isPathTo, ?_⟩
  intro other hother
  exact hleast.precedes other ((isPathTo_sortedChildren hnode ReflTransGen.refl).2 hother)

end Graph

end DocumentViews

import Mathlib
import DocumentViews.Graph.Basic

/-!
Reachability along the edges of a graph. A node is on or below a cycle when a
node that leads back to itself leads to it as well. In a finite set in which
every node has a parent all nodes are on or below a cycle.
-/

namespace DocumentViews

open Relation

/-- A node that a relation leads to from a node on one of its cycles. -/
def OnOrBelowCycle {α : Type} (r : α → α → Prop) (node : α) : Prop :=
  ∃ other, TransGen r other other ∧ ReflTransGen r other node

variable {α : Type} {r : α → α → Prop}

theorem OnOrBelowCycle.of_cycle {node : α} (h : TransGen r node node) : OnOrBelowCycle r node :=
  ⟨node, h, ReflTransGen.refl⟩

/-- A node is not below a cycle by itself: one of its parents is there, too. -/
theorem OnOrBelowCycle.exists_parent {node : α} (h : OnOrBelowCycle r node) :
    ∃ parent, r parent node ∧ OnOrBelowCycle r parent := by
  obtain ⟨other, hcycle, hreach⟩ := h
  rcases ReflTransGen.cases_tail hreach with rfl | ⟨parent, hparent, hstep⟩
  · obtain ⟨parent, hparent, hstep⟩ := TransGen.tail'_iff.1 hcycle
    exact ⟨parent, hstep, node, hcycle, hparent⟩
  · exact ⟨parent, hstep, other, hcycle, hparent⟩

/-- Going from parent to parent within a finite set ends up on a cycle. -/
theorem onOrBelowCycle_of_forall_exists_parent (nodes : Set α) (hfinite : nodes.Finite)
    (hparent : ∀ node ∈ nodes, ∃ parent ∈ nodes, r parent node) {node : α} (hnode : node ∈ nodes) :
    OnOrBelowCycle r node := by
  by_contra hfree
  let above : Set α := {other | other ∈ nodes ∧ ReflTransGen r other node}
  have : Finite above := (hfinite.subset fun _ h => h.1).to_subtype
  have : IsTrans above fun a b => TransGen r a.1 b.1 := ⟨fun _ _ _ => TransGen.trans⟩
  have : Std.Irrefl fun a b : above => TransGen r a.1 b.1 :=
    ⟨fun a hcycle => hfree ⟨a.1, hcycle, a.2.2⟩⟩
  have hwf : WellFounded fun a b : above => TransGen r a.1 b.1 :=
    Finite.wellFounded_of_trans_of_irrefl _
  obtain ⟨⟨top, htop, hreach⟩, -, hmin⟩ :=
    hwf.has_min Set.univ ⟨⟨node, hnode, ReflTransGen.refl⟩, trivial⟩
  obtain ⟨parent, hmem, hstep⟩ := hparent top htop
  exact hmin ⟨parent, hmem, hreach.head hstep⟩ trivial (TransGen.single hstep)

namespace Graph

/-- An edge leads from the first node to the second. -/
def IsParent (graph : Graph) (parent child : Nat) : Prop :=
  child ∈ graph.children parent

/-- Some node leads back to itself. -/
def HasCycle (graph : Graph) : Prop :=
  ∃ node, TransGen graph.IsParent node node

/-- Edges lead from the first node to the second, possibly none. -/
def Reaches (graph : Graph) : Nat → Nat → Prop :=
  ReflTransGen graph.IsParent

theorem isParent_iff_mem_parents {graph : Graph} {parent child : Nat} :
    graph.IsParent parent child ↔ parent ∈ graph.parents child :=
  mem_children_iff_mem_parents

theorem isParent_iff_mem_ends {graph : Graph} {parent child : Nat} :
    graph.IsParent parent child ↔ (parent, child) ∈ graph.edges.map Edge.ends :=
  mem_children

theorem IsParent.lt_left {graph : Graph} {parent child : Nat} (h : graph.IsParent parent child) :
    parent < graph.nodes.length := by
  obtain ⟨edge, hedge, heq⟩ := List.mem_map.1 (mem_children.1 h)
  obtain ⟨rfl, rfl⟩ := Prod.mk.inj heq
  exact (graph.joins edge hedge).1

theorem IsParent.lt_right {graph : Graph} {parent child : Nat} (h : graph.IsParent parent child) :
    child < graph.nodes.length :=
  lt_of_mem_children h

theorem hasCycle_iff {graph : Graph} :
    graph.HasCycle ↔ ∃ node, OnOrBelowCycle graph.IsParent node := by
  constructor
  · intro hsome
    obtain ⟨node, hcycle⟩ := hsome
    exact ⟨node, OnOrBelowCycle.of_cycle hcycle⟩
  · intro hboth
    obtain ⟨-, other, hcycle, -⟩ := hboth
    exact ⟨other, hcycle⟩

theorem lt_of_onOrBelowCycle {graph : Graph} {node : Nat}
    (h : OnOrBelowCycle graph.IsParent node) : node < graph.nodes.length := by
  obtain ⟨parent, hstep, -⟩ := h.exists_parent
  exact hstep.lt_right

theorem Reaches.lt {graph : Graph} {start node : Nat} (h : graph.Reaches start node)
    (hstart : start < graph.nodes.length) : node < graph.nodes.length := by
  rcases ReflTransGen.cases_tail h with rfl | ⟨parent, -, hstep⟩
  · exact hstart
  · exact hstep.lt_right

theorem Reaches.lt_start {graph : Graph} {start node : Nat} (h : graph.Reaches start node)
    (hnode : node < graph.nodes.length) : start < graph.nodes.length := by
  rcases ReflTransGen.cases_head h with rfl | ⟨child, hstep, -⟩
  · exact hnode
  · exact IsParent.lt_left hstep

/-- Edges that are told apart by one of their ends have that end only once. -/
theorem nodup_map_filter (graph : Graph) (ends : Nat → Nat × Nat) {picks : Edge → Bool}
    {pick : Edge → Nat} (hends : ∀ edge, picks edge = true → edge.ends = ends (pick edge)) :
    ((graph.edges.filter picks).map pick).Nodup := by
  have hpicked : ((graph.edges.filter picks).map Edge.ends).Nodup :=
    graph.ends_nodup.sublist (List.filter_sublist.map _)
  have hsame : (graph.edges.filter picks).map Edge.ends =
      ((graph.edges.filter picks).map pick).map ends := by
    rw [List.map_map]
    apply List.map_congr_left
    intro edge hedge
    exact hends edge (List.mem_filter.1 hedge).2
  rw [hsame] at hpicked
  exact List.Nodup.of_map ends hpicked

theorem children_nodup (graph : Graph) (parent : Nat) : (graph.children parent).Nodup := by
  apply nodup_map_filter graph fun child => (parent, child)
  intro edge hparent
  exact Prod.ext (eq_of_beq hparent) rfl

theorem parents_nodup (graph : Graph) (child : Nat) : (graph.parents child).Nodup := by
  apply nodup_map_filter graph fun parent => (parent, child)
  intro edge hchild
  exact Prod.ext rfl (eq_of_beq hchild)

/-- Two nodes of a graph with one identifier are the same node. -/
theorem idOf_injective {graph : Graph} {first second : Nat} (hfirst : first < graph.nodes.length)
    (hsecond : second < graph.nodes.length) (h : graph.idOf first = graph.idOf second) :
    first = second := by
  have hat : ∀ {index}, index < graph.nodes.length →
      (graph.nodes.map Node.id)[index]? = some (graph.idOf index) := by
    intro index hindex
    simp [idOf, node?, hindex]
  rw [← List.getElem?_inj (by simpa using hfirst) graph.ids_nodup, hat hfirst, hat hsecond, h]

end Graph

end DocumentViews

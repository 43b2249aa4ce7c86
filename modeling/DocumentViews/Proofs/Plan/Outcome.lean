import Mathlib
import DocumentViews.Proofs.Plan.Layout

/-!
When a graph has a plan. A graph without nodes has none for want of a root, and
a graph with a cycle has none for its first node on or below a cycle. Every
other graph has one: a promoted node is never a misfit.
-/

namespace DocumentViews.Graph

variable {graph : Graph}

theorem plan_of_nil (h : graph.nodes = []) : graph.plan = .error (.noRoot graph.name) := by
  simp only [plan, h]

/-- The node that a failed plan names is the first one that the order leaves
out, so the first one on or below a cycle. -/
theorem plan_of_hasCycle (h : graph.HasCycle) :
    ∃ index, IsLeast {node | OnOrBelowCycle graph.IsParent node} index ∧
      graph.plan = .error (.misfit (graph.idOf index) .onOrBelowCycle) := by
  obtain ⟨node, hnode⟩ := hasCycle_iff.1 h
  have hlt := lt_of_onOrBelowCycle hnode
  have hnil : graph.nodes ≠ [] := List.ne_nil_of_length_pos (Nat.zero_lt_of_lt hlt)
  cases hstuck : graph.indices.find? (· ∉ graph.topologicalOrder) with
  | none =>
    have hin := List.find?_eq_none.1 hstuck node (List.mem_range.2 hlt)
    simp only [decide_eq_true_eq, not_not] at hin
    exact absurd hnode (mem_topologicalOrder.1 hin).2
  | some index =>
    obtain ⟨hout, hindex, hbefore⟩ := List.find?_range_eq_some.1 hstuck
    simp only [decide_eq_true_eq] at hout
    refine ⟨index, ⟨?_, fun other hother => ?_⟩, ?_⟩
    · by_contra hfree
      exact hout (mem_topologicalOrder.2 ⟨List.mem_range.1 hindex, hfree⟩)
    · by_contra hless
      have hin := hbefore other (Nat.lt_of_not_le hless)
      simp only [decide_not, Bool.not_not, decide_eq_true_eq] at hin
      exact (mem_topologicalOrder.1 hin).2 hother
    · unfold plan
      split
      · next heq => exact absurd heq hnil
      · simp only [hstuck]

/-- Without a cycle the plan is the layout of the graph. -/
theorem plan_of_acyclic (hnil : graph.nodes ≠ []) (h : ¬ graph.HasCycle) :
    graph.plan = .ok graph.layout := by
  have hroot : 0 < graph.nodes.length := List.length_pos_of_ne_nil hnil
  have hstuck : graph.indices.find? (· ∉ graph.topologicalOrder) = none := by
    apply List.find?_eq_none.2
    intro node hnode
    simp only [decide_eq_true_eq, not_not]
    refine mem_topologicalOrder.2 ⟨List.mem_range.1 hnode, fun hcycle => h ?_⟩
    exact hasCycle_iff.2 ⟨node, hcycle⟩
  have hmem : ∀ index ∈ graph.promotedOrder, index ∈ graph.promoted 0 :=
    fun _ => mem_promoted_of_mem_promotedOrder
  unfold plan
  split
  · next heq => exact absurd heq hnil
  · next node rest heq =>
    have htable : graph.fillTable (graph.promoted 0) 0 ⟨node.id, node.name, [], [], []⟩ =
        graph.fillTable (graph.promoted 0) 0 (graph.bareTable 0 [] []) := by
      simp [bareTable, idOf, nameOf, node?, heq]
    simp only [hstuck, htable]
    refine planNodes_eq
      (fun index hindex => misfit?_eq_none_of_mem_promoted hroot (hmem index hindex))
      (fun index hindex => lt_of_mem_promoted hroot (hmem index hindex))
      (graph.topologicalOrder_nodup.filter _) fun table htable index hindex hid => ?_
    rw [Plan.merge, Plan.empty, mergeTable, List.mem_singleton] at htable
    rw [htable, fillTable_id] at hid
    have hsame := idOf_injective hroot (lt_of_mem_promoted hroot (hmem index hindex)) hid
    exact ((mem_promoted hroot).1 (hmem index hindex)).2.1 hsame.symm

theorem plan_eq_ok_iff {plan : Plan} :
    graph.plan = .ok plan ↔ graph.nodes ≠ [] ∧ ¬ graph.HasCycle ∧ plan = graph.layout := by
  by_cases hnil : graph.nodes = []
  · simp [plan_of_nil hnil, hnil]
  · by_cases hcycle : graph.HasCycle
    · obtain ⟨index, -, hplan⟩ := plan_of_hasCycle hcycle
      simp [hplan, hcycle]
    · simp [plan_of_acyclic hnil hcycle, hnil, hcycle, eq_comm]

/-- A graph has a plan when it has a root and no cycle. Of the misfits only a
node on or below a cycle ever keeps a graph from its plan, and the first such
node is the one that is named. -/
theorem plan_outcome (graph : Graph) :
    (∀ name, graph.plan = .error (.noRoot name) ↔ graph.nodes = [] ∧ name = graph.name) ∧
      ((∃ id reason, graph.plan = .error (.misfit id reason)) ↔ graph.HasCycle) ∧
      (∀ id reason, graph.plan = .error (.misfit id reason) →
        reason = .onOrBelowCycle ∧
          ∃ index, IsLeast {node | OnOrBelowCycle graph.IsParent node} index ∧
            id = graph.idOf index) ∧
      ((∃ plan, graph.plan = .ok plan) ↔ graph.nodes ≠ [] ∧ ¬ graph.HasCycle) ∧
      ∀ index ∈ graph.promoted 0, graph.misfit? (graph.discoveries 0) index = none := by
  have hfit : ∀ index ∈ graph.promoted 0, graph.misfit? (graph.discoveries 0) index = none :=
    fun index hindex => misfit?_eq_none_of_mem_promoted (length_pos_of_mem_promoted hindex) hindex
  by_cases hcycle : graph.HasCycle
  · obtain ⟨index, hleast, hplan⟩ := plan_of_hasCycle hcycle
    have hnil : graph.nodes ≠ [] :=
      List.ne_nil_of_length_pos (Nat.zero_lt_of_lt (lt_of_onOrBelowCycle hleast.1))
    rw [hplan]
    refine ⟨fun name => ?_, ?_, fun id reason h => ?_, ?_, hfit⟩
    · simp [hnil]
    · exact ⟨fun _ => hcycle, fun _ => ⟨_, _, rfl⟩⟩
    · simp only [Except.error.injEq, PlanError.misfit.injEq] at h
      exact ⟨h.2.symm, index, hleast, h.1.symm⟩
    · simp [hcycle]
  · by_cases hnil : graph.nodes = []
    · rw [plan_of_nil hnil]
      refine ⟨fun name => ?_, ?_, fun id reason h => ?_, ?_, hfit⟩
      · simp [hnil, eq_comm]
      · simp [hcycle]
      · simp at h
      · simp [hnil]
    · rw [plan_of_acyclic hnil hcycle]
      refine ⟨fun name => ?_, ?_, fun id reason h => ?_, ?_, hfit⟩
      · simp [hnil]
      · simp [hcycle]
      · simp at h
      · exact ⟨fun _ => ⟨hnil, hcycle⟩, fun _ => ⟨_, rfl⟩⟩

end DocumentViews.Graph

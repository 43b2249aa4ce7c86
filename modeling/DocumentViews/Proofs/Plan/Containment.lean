import Mathlib
import DocumentViews.Proofs.Graph.Lineage
import DocumentViews.Proofs.Plan.Rooted

/-!
The order of a plan follows containment. The root comes first and lies in no
other table. A nested table is always planned, and it comes behind each of the
tables around it that is planned as well. No two relationships join the same
tables, and beside the root there is one table for each promoted node.
-/

namespace DocumentViews

/-- The table of the first reference comes before that of the second. -/
def Plan.Precedes (plan : Plan) (first second : TableRef) : Prop :=
  ∃ before after, plan.tables.map Table.id = before ++ second.id :: after ∧ first.id ∈ before

/-- Tables are listed once, from the root on, and none before a table around it. -/
structure Plan.IsNestedUnder (plan : Plan) (root : Node) : Prop where
  ids_nodup : (plan.tables.map Table.id).Nodup
  first_table : ∃ table, plan.tables.head? = some table ∧ table.id = root.id ∧
    table.name = root.name
  child_ne_root : ∀ relationship ∈ plan.relationships, relationship.child.id ≠ root.id
  has_child : ∀ relationship ∈ plan.relationships, plan.Has relationship.child
  parent_precedes : ∀ relationship ∈ plan.relationships,
    relationship.parent.id ∈ plan.tables.map Table.id →
      plan.Precedes relationship.parent relationship.child
  pairs_nodup : (plan.relationships.map fun relationship =>
    (relationship.parent.id, relationship.child.id)).Nodup

namespace Graph

variable {graph : Graph} {index parent : Nat}

theorem map_id_layout (graph : Graph) :
    graph.layout.tables.map Table.id = graph.planned.map graph.idOf := by
  rw [layout, planned, List.map_cons, List.map_cons, List.map_map, fillTable_id]
  congr 1
  apply List.map_congr_left
  intro index _
  exact fillTable_id graph _ index _ _

theorem lt_of_mem_planned (hroot : 0 < graph.nodes.length) (h : index ∈ graph.planned) :
    index < graph.nodes.length := by
  rcases List.mem_cons.1 h with rfl | h
  · exact hroot
  · exact lt_of_mem_promotedOrder h

theorem map_idOf_planned_nodup (hroot : 0 < graph.nodes.length) :
    (graph.planned.map graph.idOf).Nodup := by
  refine List.Nodup.map_on ?_ graph.planned_nodup
  intro first hfirst second hsecond hid
  exact idOf_injective (lt_of_mem_planned hroot hfirst) (lt_of_mem_planned hroot hsecond) hid

/-- In topological order all parents of a node come before it. -/
theorem mem_before_of_isParent {before after : List Nat}
    (horder : graph.topologicalOrder = before ++ index :: after)
    (hstep : graph.IsParent parent index) : parent ∈ before := by
  have hgreedy := isGreedyOrder_topologicalOrder graph
  rw [horder] at hgreedy
  have hready : graph.IsReady graph.indices before index := by simpa using hgreedy.isReady
  exact hready.closed parent (List.mem_range.2 hstep.lt_left) hstep

/-- Of the planned nodes the parents come first, for the root is on top and the
promoted nodes keep their order. -/
theorem exists_planned_split (hindex : index ∈ graph.promotedOrder)
    (hstep : graph.IsParent parent index) (hparent : parent ∈ graph.planned) :
    ∃ before after, graph.planned = before ++ index :: after ∧ parent ∈ before := by
  obtain ⟨horder, hpromoted⟩ := List.mem_filter.1 hindex
  obtain ⟨early, late, hsplit⟩ := List.append_of_mem horder
  refine ⟨0 :: early.filter (· ∈ graph.promoted 0), late.filter (· ∈ graph.promoted 0), ?_, ?_⟩
  · rw [planned, promotedOrder, hsplit, List.filter_append, List.filter_cons, if_pos hpromoted]
    rfl
  · rcases List.mem_cons.1 hparent with rfl | hparent
    · exact List.mem_cons_self
    · apply List.mem_cons_of_mem
      apply List.mem_filter.2
      exact ⟨mem_before_of_isParent hsplit hstep, (List.mem_filter.1 hparent).2⟩

/-- A node is promoted once, for no node is both inner and outer. -/
theorem promoted_nodup (graph : Graph) (root : Nat) : (graph.promoted root).Nodup := by
  apply List.nodup_append.2
  refine ⟨(firstArrivals_nodup _).filter _, ((firstArrivals_nodup _).filter _).filter _, ?_⟩
  intro inner hinner outer houter hsame
  have houter := List.mem_of_mem_filter houter
  rw [← hsame] at houter
  exact (Discoveries.mem_outer.1 houter).2 (Discoveries.mem_inner.1 hinner)

theorem length_promotedOrder (hacyclic : ¬ graph.HasCycle) :
    graph.promotedOrder.length = (graph.promoted 0).length := by
  have hnodup : graph.promotedOrder.Nodup := (List.nodup_cons.1 graph.planned_nodup).2
  apply List.Perm.length_eq
  rw [List.perm_ext_iff_of_nodup hnodup (graph.promoted_nodup 0)]
  intro index
  exact mem_promotedOrder hacyclic

theorem map_ids_relationshipsAt (graph : Graph) (index : Nat) :
    (graph.relationshipsAt index).map (fun relationship =>
      (relationship.parent.id, relationship.child.id)) =
        (graph.parents index).map fun parent => (graph.idOf parent, graph.idOf index) := by
  rw [relationshipsAt, List.map_map]
  rfl

/-- Parents are listed once, and each promoted node brings its own. -/
theorem map_ids_relationships_nodup (graph : Graph) :
    (graph.layout.relationships.map fun relationship =>
      (relationship.parent.id, relationship.child.id)).Nodup := by
  rw [layout, List.map_flatMap]
  simp only [map_ids_relationshipsAt]
  rw [List.nodup_flatMap]
  constructor
  · intro index _
    refine List.Nodup.map_on ?_ (graph.parents_nodup index)
    intro first hfirst second hsecond hsame
    have hfirst := (isParent_iff_mem_parents.2 hfirst).lt_left
    have hsecond := (isParent_iff_mem_parents.2 hsecond).lt_left
    exact idOf_injective hfirst hsecond (Prod.mk.inj hsame).1
  · refine List.Pairwise.imp_of_mem ?_ (List.nodup_cons.1 graph.planned_nodup).2
    intro first second hfirst hsecond hne pair hpairFirst hpairSecond
    obtain ⟨_, -, rfl⟩ := List.mem_map.1 hpairFirst
    obtain ⟨_, -, hsame⟩ := List.mem_map.1 hpairSecond
    apply hne
    exact idOf_injective (lt_of_mem_promotedOrder hfirst) (lt_of_mem_promotedOrder hsecond)
      (Prod.mk.inj hsame).2.symm

theorem precedes_layout (hindex : index ∈ graph.promotedOrder) (hstep : graph.IsParent parent index)
    (hparent : graph.idOf parent ∈ graph.layout.tables.map Table.id) :
    graph.layout.Precedes (graph.refAt parent) (graph.refAt index) := by
  have hroot := Nat.zero_lt_of_lt hstep.lt_left
  rw [map_id_layout] at hparent
  obtain ⟨other, hother, hid⟩ := List.mem_map.1 hparent
  obtain rfl := idOf_injective (lt_of_mem_planned hroot hother) hstep.lt_left hid
  obtain ⟨before, after, hplanned, hbefore⟩ := exists_planned_split hindex hstep hother
  refine ⟨before.map graph.idOf, after.map graph.idOf, ?_, List.mem_map_of_mem hbefore⟩
  rw [map_id_layout, hplanned, List.map_append, List.map_cons]
  rfl

theorem isNestedUnder_layout {root : Node} (hroot : graph.node? 0 = some root) :
    graph.layout.IsNestedUnder root where
  ids_nodup := by
    rw [map_id_layout]
    exact map_idOf_planned_nodup (List.getElem?_eq_some_iff.1 hroot).1
  first_table := by
    refine ⟨_, rfl, ?_, ?_⟩
    · rw [fillTable_id, idOf_eq hroot]
    · rw [fillTable_name, nameOf_eq hroot]
  child_ne_root := by
    intro relationship hin
    obtain ⟨index, hindex, parent, -, rfl⟩ := mem_relationships_layout.1 hin
    rw [← idOf_eq hroot]
    exact idOf_ne_of_mem_promotedOrder hindex
  has_child := fun _ => has_child_layout
  parent_precedes := by
    intro relationship hin hparent
    obtain ⟨index, hindex, parent, hstep, rfl⟩ := mem_relationships_layout.1 hin
    exact precedes_layout hindex hstep hparent
  pairs_nodup := graph.map_ids_relationships_nodup

/-- A plan begins with the root, has one more table for each promoted node and
no table before a planned one around it, and relates each pair of tables once. -/
theorem plan_follows_containment {plan : Plan} (hplan : graph.plan = .ok plan) :
    ∃ root, graph.node? 0 = some root ∧ plan.IsNestedUnder root ∧
      (graph.promoted 0).Nodup ∧ plan.tables.length = (graph.promoted 0).length + 1 := by
  obtain ⟨hnil, hacyclic, rfl⟩ := plan_eq_ok_iff.1 hplan
  obtain ⟨root, hroot, -⟩ := node?_eq_some (List.length_pos_of_ne_nil hnil)
  refine ⟨root, hroot, isNestedUnder_layout hroot, graph.promoted_nodup 0, ?_⟩
  rw [layout, List.length_cons, List.length_map, length_promotedOrder hacyclic]

/-- The second table without parents is not planned, and the table that it
shares with the root comes behind the root all the same. -/
theorem plan_follows_containment_joinedTables :
    ∃ plan, joinedTables.plan = .ok plan ∧ plan.relationships.length = 5 ∧
      ∃ root, joinedTables.node? 0 = some root ∧ plan.IsNestedUnder root ∧
        (joinedTables.promoted 0).Nodup ∧
        plan.tables.length = (joinedTables.promoted 0).length + 1 := by
  have hacyclic : ¬ joinedTables.HasCycle := not_hasCycle_of_lt (by decide)
  have hplan : joinedTables.plan = .ok joinedTables.layout :=
    plan_of_acyclic (by decide) hacyclic
  exact ⟨joinedTables.layout, hplan, by decide +kernel, plan_follows_containment hplan⟩

end Graph

end DocumentViews

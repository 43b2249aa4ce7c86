import Mathlib
import DocumentViews.Proofs.Graph.Ancestry
import DocumentViews.Proofs.Plan.Outcome

/-!
The data set that planned tables belong to. A table other than the root has the
display names from the root of its ancestry down to itself, so it belongs to
the data set of that root. All tables of a plan belong to the data set of its
root table when every ancestry begins there. A relationship names two tables,
and a plan is closed when both of them are planned.
-/

namespace DocumentViews

/-- All tables belong to the data set of the root, which is one of them. Names
lead from the root down to every other table. -/
structure Plan.IsRootedAt (plan : Plan) (root : Node) : Prop where
  mem_ids : root.id ∈ plan.tables.map Table.id
  parentPath_root : ∀ table ∈ plan.tables, table.id = root.id → table.parentPath = []
  head?_parentPath : ∀ table ∈ plan.tables, table.id ≠ root.id →
    table.parentPath.head? = some root.name
  getLast?_parentPath : ∀ table ∈ plan.tables, table.id ≠ root.id →
    table.parentPath.getLast? = some table.name
  entity_eq : ∀ table ∈ plan.tables, table.entity = root.name

/-- Some table of the plan has the identifier and the name of a reference. -/
def Plan.Has (plan : Plan) (ref : TableRef) : Prop :=
  ∃ table ∈ plan.tables, table.id = ref.id ∧ table.name = ref.name

instance (plan : Plan) (ref : TableRef) : Decidable (plan.Has ref) :=
  inferInstanceAs (Decidable (∃ table ∈ plan.tables, _ ∧ _))

/-- Relationships join tables of the plan, and all tables belong to the data
set of the root. -/
structure Plan.IsClosedAt (plan : Plan) (root : Node) : Prop where
  has_parent : ∀ relationship ∈ plan.relationships, plan.Has relationship.parent
  has_child : ∀ relationship ∈ plan.relationships, plan.Has relationship.child
  entity_eq : ∀ table ∈ plan.tables, table.entity = root.name

namespace Graph

variable {graph : Graph} {index : Nat}

/-- The names of an ancestry begin at its root and end at its node. -/
theorem namePath_ancestry (hacyclic : ¬ graph.HasCycle) (hlt : index < graph.nodes.length) :
    (graph.ancestry index).namePath.head? = some (graph.nameOf (graph.ancestry index).root) ∧
      (graph.ancestry index).namePath.getLast? = some (graph.nameOf index) := by
  obtain ⟨hreach, -, -⟩ := root_ancestry hacyclic hlt
  have hpath := (isLeastPath_shortestPath hlt hreach).isPathTo
  have hnodes : ∀ node ∈ graph.shortestPath (graph.lineage index) (graph.ancestry index).root index,
      node < graph.nodes.length := fun node => IsPathTo.lt_of_mem hpath (hreach.lt_start hlt)
  have hnames : (graph.ancestry index).namePath =
      (graph.shortestPath (graph.lineage index) (graph.ancestry index).root index).map
        graph.nameOf :=
    map_filterMap_node? (fun hnode => (nameOf_eq hnode).symm) hnodes
  rw [hnames, List.head?_map, List.getLast?_map, hpath.head?_eq, hpath.getLast?_eq]
  exact ⟨rfl, rfl⟩

/-- The table of a promoted node belongs to the data set of the root of its
ancestry. -/
theorem entity_tableAt (hacyclic : ¬ graph.HasCycle) (hlt : index < graph.nodes.length)
    (promoted : List Nat) :
    (graph.tableAt promoted index).entity = graph.nameOf (graph.ancestry index).root := by
  rw [Table.entity, tableAt, fillTable_parentPath, (namePath_ancestry hacyclic hlt).1]
  rfl

theorem entity_rootTable (graph : Graph) (promoted : List Nat) :
    (graph.fillTable promoted 0 (graph.bareTable 0 [] [])).entity = graph.nameOf 0 := by
  rw [Table.entity, fillTable_parentPath, fillTable_name]
  rfl

theorem lt_of_mem_promotedOrder (h : index ∈ graph.promotedOrder) : index < graph.nodes.length := by
  have := (List.mem_filter.1 h).1
  exact (mem_topologicalOrder.1 this).1

theorem idOf_ne_of_mem_promotedOrder (h : index ∈ graph.promotedOrder) :
    graph.idOf index ≠ graph.idOf 0 := by
  intro hsame
  have hlt := lt_of_mem_promotedOrder h
  obtain rfl := idOf_injective hlt (Nat.zero_lt_of_lt hlt) hsame
  exact (List.nodup_cons.1 graph.planned_nodup).1 h

/-- A planned table other than the root is that of a promoted node. -/
theorem exists_tableAt_of_mem_layout {root : Node} (hroot : graph.node? 0 = some root)
    {table : Table} (hin : table ∈ graph.layout.tables) (hid : table.id ≠ root.id) :
    ∃ index ∈ graph.promotedOrder, graph.tableAt (graph.promoted 0) index = table := by
  rcases List.mem_cons.1 hin with rfl | hin
  · rw [fillTable_id, idOf_eq hroot] at hid
    exact absurd rfl hid
  · exact List.mem_map.1 hin

/-- A plan is rooted when the ancestry of every table begins at the root. -/
theorem isRootedAt_layout (hacyclic : ¬ graph.HasCycle) {root : Node}
    (hroot : graph.node? 0 = some root)
    (htop : ∀ index ∈ graph.promotedOrder, (graph.ancestry index).root = 0) :
    graph.layout.IsRootedAt root where
  mem_ids := by
    rw [← idOf_eq hroot, ← fillTable_id graph (graph.promoted 0) 0 [] []]
    exact List.mem_map_of_mem List.mem_cons_self
  parentPath_root := by
    intro table hin hid
    rcases List.mem_cons.1 hin with rfl | hin
    · exact fillTable_parentPath graph _ 0 [] []
    · obtain ⟨index, hindex, rfl⟩ := List.mem_map.1 hin
      rw [tableAt, fillTable_id, ← idOf_eq hroot] at hid
      exact absurd hid (idOf_ne_of_mem_promotedOrder hindex)
  head?_parentPath := by
    intro table hin hid
    obtain ⟨index, hindex, rfl⟩ := exists_tableAt_of_mem_layout hroot hin hid
    rw [tableAt, fillTable_parentPath, ← nameOf_eq hroot, ← htop index hindex]
    exact (namePath_ancestry hacyclic (lt_of_mem_promotedOrder hindex)).1
  getLast?_parentPath := by
    intro table hin hid
    obtain ⟨index, hindex, rfl⟩ := exists_tableAt_of_mem_layout hroot hin hid
    rw [tableAt, fillTable_parentPath, fillTable_name]
    exact (namePath_ancestry hacyclic (lt_of_mem_promotedOrder hindex)).2
  entity_eq := by
    intro table hin
    rw [← nameOf_eq hroot]
    rcases List.mem_cons.1 hin with rfl | hin
    · exact entity_rootTable graph _
    · obtain ⟨index, hindex, rfl⟩ := List.mem_map.1 hin
      rw [entity_tableAt hacyclic (lt_of_mem_promotedOrder hindex), htop index hindex]

theorem has_refAt_iff (hlt : index < graph.nodes.length) :
    graph.layout.Has (graph.refAt index) ↔ index ∈ graph.planned := by
  have hbelow : ∀ other ∈ graph.planned, other < graph.nodes.length := by
    intro other hother
    rcases List.mem_cons.1 hother with rfl | hother
    · exact Nat.zero_lt_of_lt hlt
    · exact lt_of_mem_promotedOrder hother
  constructor
  · intro hhas
    obtain ⟨table, hin, hid, -⟩ := hhas
    obtain ⟨other, hother, namePath, keyPath, rfl⟩ := exists_fillTable_of_mem_layout hin
    rw [fillTable_id] at hid
    exact idOf_injective (hbelow other hother) hlt hid ▸ hother
  · intro hin
    rcases List.mem_cons.1 hin with rfl | hin
    · exact ⟨_, List.mem_cons_self, fillTable_id graph _ 0 [] [], fillTable_name graph _ 0 [] []⟩
    · exact ⟨_, List.mem_cons_of_mem _ (List.mem_map_of_mem hin), fillTable_id graph _ index _ _,
        fillTable_name graph _ index _ _⟩

theorem mem_relationships_layout {relationship : Relationship} :
    relationship ∈ graph.layout.relationships ↔ ∃ index ∈ graph.promotedOrder,
      ∃ parent, graph.IsParent parent index ∧
        relationship = ⟨graph.refAt parent, graph.refAt index⟩ := by
  simp only [layout, relationshipsAt, List.mem_flatMap, List.mem_map, isParent_iff_mem_parents,
    eq_comm]

/-- The inner table of a relationship is planned, for only planned tables bring
relationships with them. -/
theorem has_child_layout {relationship : Relationship}
    (h : relationship ∈ graph.layout.relationships) : graph.layout.Has relationship.child := by
  obtain ⟨index, hindex, parent, -, rfl⟩ := mem_relationships_layout.1 h
  exact (has_refAt_iff (lt_of_mem_promotedOrder hindex)).2 (List.mem_cons_of_mem _ hindex)

end Graph

end DocumentViews

import Mathlib
import DocumentViews.Proofs.Graph.TopologicalOrder
import DocumentViews.Proofs.Plan.Promotion

/-!
The plan of a graph without cycles, written out. It holds the table of the root
and then one for each promoted node in topological order. The columns of a
table are the components among the children of its node that are not promoted,
in their order, and the relationships join each promoted node to its parents.
-/

namespace DocumentViews

theorem Table.push_of_fresh {table : Table} {column : Column}
    (h : ∀ other ∈ table.columns, other.id ≠ column.id) :
    table.push column = { table with columns := table.columns ++ [column] } := by
  rw [Table.push, if_neg]
  simpa [Table.hasColumn] using h

theorem mergeTable_of_fresh {table : Table} {tables : List Table}
    (h : ∀ other ∈ tables, other.id ≠ table.id) : mergeTable table tables = tables ++ [table] := by
  induction tables with
  | nil => rfl
  | cons other rest ih =>
    rw [mergeTable, if_neg (h other List.mem_cons_self),
      ih fun table htable => h table (List.mem_cons_of_mem _ htable)]
    rfl

/-- Attaching nodes of different identifiers appends their columns. -/
theorem Table.foldl_attach {table : Table} {nodes : List Node}
    (hnodup : (nodes.map Node.id).Nodup)
    (hfresh : ∀ column ∈ table.columns, column.id ∉ nodes.map Node.id) :
    nodes.foldl Table.attach table =
      { table with columns := table.columns ++ nodes.filterMap (·.column? table) } := by
  induction nodes generalizing table with
  | nil => simp
  | cons node rest ih =>
    obtain ⟨hnode, hrest⟩ := List.nodup_cons.1 hnodup
    rw [List.foldl_cons, List.filterMap_cons]
    cases hcolumn : node.column? table with
    | none =>
      rw [Table.attach, hcolumn, ih hrest]
      intro column hmem hin
      exact hfresh column hmem (List.mem_cons_of_mem _ hin)
    | some column =>
      have hid : column.id = node.id := by
        obtain ⟨type, -, rfl⟩ := Option.map_eq_some_iff.1 hcolumn
        rfl
      have hpush : table.push column = { table with columns := table.columns ++ [column] } := by
        apply Table.push_of_fresh
        intro other hother heq
        exact hfresh other hother (by simp [heq, hid])
      rw [Table.attach, hcolumn]
      simp only
      rw [hpush, ih hrest]
      · simp [Node.column?]
      · intro other hother hin
        rcases List.mem_append.1 hother with hother | hother
        · exact hfresh other hother (List.mem_cons_of_mem _ hin)
        · rw [List.mem_singleton.1 hother, hid] at hin
          exact hnode hin

namespace Graph

/-- The display name of a node, and nothing for a number without a node. -/
def nameOf (graph : Graph) (index : Nat) : String :=
  ((graph.node? index).map Node.name).getD ""

theorem node?_eq_some {graph : Graph} {index : Nat} (h : index < graph.nodes.length) :
    ∃ node, graph.node? index = some node ∧ node.id = graph.idOf index ∧
      node.name = graph.nameOf index := by
  refine ⟨graph.nodes[index], by simp [node?, h], by simp [idOf, node?, h], ?_⟩
  simp [nameOf, node?, h]

theorem idOf_eq {graph : Graph} {index : Nat} {node : Node} (h : graph.node? index = some node) :
    graph.idOf index = node.id := by
  rw [idOf, h]
  rfl

theorem nameOf_eq {graph : Graph} {index : Nat} {node : Node}
    (h : graph.node? index = some node) : graph.nameOf index = node.name := by
  rw [nameOf, h]
  rfl

/-- A table without columns for a node, at the end of the given paths. -/
def bareTable (graph : Graph) (index : Nat) (namePath keyPath : List String) : Table :=
  ⟨graph.idOf index, graph.nameOf index, [], namePath, keyPath⟩

/-- The table of a promoted node. -/
def tableAt (graph : Graph) (promoted : List Nat) (index : Nat) : Table :=
  graph.fillTable promoted index
    (graph.bareTable index (graph.ancestry index).namePath (graph.ancestry index).keyPath)

def refAt (graph : Graph) (index : Nat) : TableRef :=
  ⟨graph.idOf index, graph.nameOf index⟩

/-- The relationships of a node with its parents. -/
def relationshipsAt (graph : Graph) (index : Nat) : List Relationship :=
  (graph.parents index).map fun parent => ⟨graph.refAt parent, graph.refAt index⟩

/-- The promoted nodes in topological order. -/
def promotedOrder (graph : Graph) : List Nat :=
  graph.topologicalOrder.filter (· ∈ graph.promoted 0)

/-- The tables and relationships of a graph that has a plan. -/
def layout (graph : Graph) : Plan where
  graphName := graph.name
  tables := graph.fillTable (graph.promoted 0) 0 (graph.bareTable 0 [] []) ::
    graph.promotedOrder.map (graph.tableAt (graph.promoted 0))
  relationships := graph.promotedOrder.flatMap graph.relationshipsAt

/-- The nodes that become tables, the root first. -/
def planned (graph : Graph) : List Nat :=
  0 :: graph.promotedOrder

variable {graph : Graph} {promoted : List Nat} {index : Nat}

/-- What is read off nodes, by their numbers. -/
theorem map_filterMap_node? {α : Type} {read : Node → α} {value : Nat → α}
    (hread : ∀ {index node}, graph.node? index = some node → read node = value index)
    {indices : List Nat} (hlt : ∀ index ∈ indices, index < graph.nodes.length) :
    (indices.filterMap graph.node?).map read = indices.map value := by
  induction indices with
  | nil => rfl
  | cons index rest ih =>
    obtain ⟨node, hnode, -⟩ := node?_eq_some (hlt index List.mem_cons_self)
    rw [List.filterMap_cons, hnode, List.map_cons, List.map_cons, hread hnode,
      ih fun index h => hlt index (List.mem_cons_of_mem _ h)]

/-- The columns of a table are the components among the children that are not
promoted. Their identifiers differ, so none of them is dropped. -/
theorem fillTable_eq (table : Table) (hbare : table.columns = []) :
    graph.fillTable promoted index table =
      { table with
        columns := (((graph.children index).filter (· ∉ promoted)).filterMap
          graph.node?).filterMap (·.column? table) } := by
  have hlt : ∀ child ∈ (graph.children index).filter (· ∉ promoted),
      child < graph.nodes.length := fun child hchild =>
    lt_of_mem_children (List.mem_of_mem_filter hchild)
  have hnodup : ((((graph.children index).filter (· ∉ promoted)).filterMap
      graph.node?).map Node.id).Nodup := by
    rw [map_filterMap_node? (fun hnode => (idOf_eq hnode).symm) hlt]
    refine List.Nodup.map_on ?_ ((graph.children_nodup index).filter _)
    intro first hfirst second hsecond hid
    exact idOf_injective (hlt first hfirst) (hlt second hsecond) hid
  rw [fillTable, Table.foldl_attach hnodup (by simp [hbare]), hbare, List.nil_append]

section BareTables

variable (graph : Graph) (promoted : List Nat) (index : Nat) (namePath keyPath : List String)

theorem fillTable_id :
    (graph.fillTable promoted index (graph.bareTable index namePath keyPath)).id =
      graph.idOf index := by
  rw [fillTable_eq _ rfl]
  rfl

theorem fillTable_name :
    (graph.fillTable promoted index (graph.bareTable index namePath keyPath)).name =
      graph.nameOf index := by
  rw [fillTable_eq _ rfl]
  rfl

theorem fillTable_parentPath :
    (graph.fillTable promoted index (graph.bareTable index namePath keyPath)).parentPath =
      namePath := by
  rw [fillTable_eq _ rfl]
  rfl

theorem fillTable_keyPath :
    (graph.fillTable promoted index (graph.bareTable index namePath keyPath)).keyPath =
      keyPath := by
  rw [fillTable_eq _ rfl]
  rfl

end BareTables

theorem map_name_layout (graph : Graph) :
    graph.layout.tables.map Table.name = graph.planned.map graph.nameOf := by
  rw [layout, planned, List.map_cons, List.map_cons, List.map_map, fillTable_name]
  congr 1
  apply List.map_congr_left
  intro index _
  exact fillTable_name graph _ index _ _

/-- Every planned table is the filled table of a planned node. -/
theorem exists_fillTable_of_mem_layout {table : Table} (hin : table ∈ graph.layout.tables) :
    ∃ index ∈ graph.planned, ∃ namePath keyPath, table =
      graph.fillTable (graph.promoted 0) index (graph.bareTable index namePath keyPath) := by
  rcases List.mem_cons.1 hin with rfl | hin
  · exact ⟨0, List.mem_cons_self, _, _, rfl⟩
  · obtain ⟨index, hindex, rfl⟩ := List.mem_map.1 hin
    exact ⟨index, List.mem_cons_of_mem _ hindex, _, _, rfl⟩

theorem mem_promoted_of_mem_promotedOrder (h : index ∈ graph.promotedOrder) :
    index ∈ graph.promoted 0 :=
  of_decide_eq_true (List.mem_filter.1 h).2

theorem mem_promotedOrder (hacyclic : ¬ graph.HasCycle) :
    index ∈ graph.promotedOrder ↔ index ∈ graph.promoted 0 := by
  rw [promotedOrder, List.mem_filter, mem_topologicalOrder, decide_eq_true_eq]
  refine ⟨And.right, fun h => ⟨⟨?_, fun hcycle => ?_⟩, h⟩⟩
  · exact lt_of_mem_promoted (length_pos_of_mem_promoted h) h
  · exact hacyclic (hasCycle_iff.2 ⟨index, hcycle⟩)

theorem planned_nodup (graph : Graph) : graph.planned.Nodup := by
  apply List.nodup_cons.2
  constructor
  · intro hin
    have hpromoted := mem_promoted_of_mem_promotedOrder hin
    have hroot := length_pos_of_mem_promoted hpromoted
    exact ((mem_promoted hroot).1 hpromoted).2.1 rfl
  · exact graph.topologicalOrder_nodup.filter _

theorem planNode_eq {plan : Plan} {node : Node} (hnode : graph.node? index = some node)
    (hfresh : ∀ table ∈ plan.tables, table.id ≠ graph.idOf index) :
    graph.planNode promoted plan index node =
      { plan with
        tables := plan.tables ++ [graph.tableAt promoted index]
        relationships := plan.relationships ++ graph.relationshipsAt index } := by
  have hid := idOf_eq hnode
  have hname := nameOf_eq hnode
  have htable : graph.fillTable promoted index ⟨node.id, node.name, [],
      (graph.ancestry index).namePath, (graph.ancestry index).keyPath⟩ =
      graph.tableAt promoted index := by
    rw [tableAt, bareTable, hid, hname]
  have hmerge : mergeTable (graph.tableAt promoted index) plan.tables =
      plan.tables ++ [graph.tableAt promoted index] := by
    apply mergeTable_of_fresh
    intro table hin
    rw [tableAt, fillTable_id]
    exact hfresh table hin
  have hparents : ((graph.parents index).filterMap graph.node?).map (fun parent =>
      Relationship.mk (tableRef parent) (tableRef node)) = graph.relationshipsAt index := by
    apply map_filterMap_node?
    · intro parent other hother
      rw [tableRef, tableRef, refAt, refAt, idOf_eq hother, nameOf_eq hother, hid, hname]
    · exact fun parent hparent => (isParent_iff_mem_parents.2 hparent).lt_left
  simp only [planNode, Plan.merge, htable, hmerge]
  congr 2

/-- Nodes that fit are planned one after the other. -/
theorem planNodes_eq {discoveries : Discoveries} {indices : List Nat} {plan : Plan}
    (hfit : ∀ index ∈ indices, graph.misfit? discoveries index = none)
    (hlt : ∀ index ∈ indices, index < graph.nodes.length) (hnodup : indices.Nodup)
    (hfresh : ∀ table ∈ plan.tables, ∀ index ∈ indices, table.id ≠ graph.idOf index) :
    graph.planNodes discoveries promoted plan indices = .ok
      { plan with
        tables := plan.tables ++ indices.map (graph.tableAt promoted)
        relationships := plan.relationships ++ indices.flatMap graph.relationshipsAt } := by
  induction indices generalizing plan with
  | nil => simp [planNodes]
  | cons index rest ih =>
    obtain ⟨hindex, hrest⟩ := List.nodup_cons.1 hnodup
    have hin := hlt index List.mem_cons_self
    obtain ⟨node, hnode, -, -⟩ := node?_eq_some hin
    simp only [planNodes, hfit index List.mem_cons_self, hnode]
    rw [planNode_eq hnode fun table htable => hfresh table htable index List.mem_cons_self,
      ih (fun other h => hfit other (List.mem_cons_of_mem _ h))
        (fun other h => hlt other (List.mem_cons_of_mem _ h)) hrest]
    · simp
    · intro table htable other hother hid
      rcases List.mem_append.1 htable with htable | htable
      · exact hfresh table htable other (List.mem_cons_of_mem _ hother) hid
      · rw [List.mem_singleton.1 htable, tableAt, fillTable_id] at hid
        have := idOf_injective hin (hlt other (List.mem_cons_of_mem _ hother)) hid
        exact hindex (this ▸ hother)

end Graph

end DocumentViews

import Mathlib
import DocumentViews.Proofs.Plan.Outcome
import DocumentViews.Proofs.Schema.Relational

/-!
The plan of a document. There is one unless some table is nested in itself
through others, and it has the tables, columns and relationships of the
relational reading of the schema.
-/

namespace DocumentViews

open Relation

/-- The name and the type of a column. -/
def Column.field (column : Column) : String × ScalarType :=
  (column.name, column.type)

def Table.fields (table : Table) : List (String × ScalarType) :=
  table.columns.map Column.field

/-- The names of the enclosing table and of the table nested in it. -/
def Relationship.names (relationship : Relationship) : String × String :=
  (relationship.parent.name, relationship.child.name)

/-- A plan is the relational reading of registrations. Its tables are the root
and all tables with columns or tables registered under them, one for each name.
Their columns are the registered ones, each once, in order of first arrival, and
the relationships are the nested pairs whose inner table is planned, each once. -/
structure Plan.Reads (plan : Plan) (registrations : List Schema.Registration) (root : String) :
    Prop where
  names_nodup : (plan.tables.map Table.name).Nodup
  mem_names : ∀ table, table ∈ plan.tables.map Table.name ↔
    table = root ∨ Schema.columnsUnder registrations table ≠ [] ∨
      ∃ inner, Schema.Nested registrations table inner
  fields_eq : ∀ table ∈ plan.tables,
    table.fields = firstArrivals (Schema.columnsUnder registrations table.name)
  relationships_nodup : (plan.relationships.map Relationship.names).Nodup
  mem_relationships : ∀ outer inner, (outer, inner) ∈ plan.relationships.map Relationship.names ↔
    Schema.Nested registrations outer inner ∧ inner ∈ plan.tables.map Table.name

namespace Graph

open Schema

variable {graph : Graph} {root : Node} {rest : List Registration}

namespace Represents

/-- A step between tables is a step from table to nested table. -/
theorem nested_of_isParent (h : graph.Represents root rest) {i j k : Nat}
    (hij : graph.IsParent i j) (hjk : graph.IsParent j k) :
    Nested rest (graph.nameOf i) (graph.nameOf j) := by
  have hi := h.standsFor_of_isParent hij
  have hj := h.standsFor_of_isParent hjk
  exact (h.isParent_iff_nested hi hj).1 hij

theorem transGen_nested_of_transGen (h : graph.Represents root rest) {i j k : Nat}
    (hij : TransGen graph.IsParent i j) (hjk : graph.IsParent j k) :
    TransGen (Nested rest) (graph.nameOf i) (graph.nameOf j) := by
  induction hij generalizing k with
  | single hstep => exact TransGen.single (h.nested_of_isParent hstep hjk)
  | tail _ hstep ih => exact (ih hstep).tail (h.nested_of_isParent hstep hjk)

theorem exists_isParent_of_nested (h : graph.Represents root rest) {outer inner : String}
    (hnested : Nested rest outer inner) :
    ∃ i j, graph.IsParent i j ∧ graph.StandsFor i .entity outer ∧
      graph.StandsFor j .entity inner := by
  obtain ⟨-, registration, hin, ⟨table, haround, rfl⟩, hkind, rfl⟩ := id hnested
  obtain ⟨i, hi⟩ := h.exists_standsFor_around hin haround
  obtain ⟨j, hj⟩ := h.exists_standsFor_node hin
  rw [hkind] at hj
  exact ⟨i, j, (h.isParent_iff_nested hi hj).2 hnested, hi, hj⟩

theorem transGen_of_transGen_nested (h : graph.Represents root rest) {outer inner : String}
    (hnested : TransGen (Nested rest) outer inner) :
    ∃ i j, TransGen graph.IsParent i j ∧ graph.StandsFor i .entity outer ∧
      graph.StandsFor j .entity inner := by
  induction hnested with
  | single hstep =>
    obtain ⟨i, j, hij, hi, hj⟩ := h.exists_isParent_of_nested hstep
    exact ⟨i, j, TransGen.single hij, hi, hj⟩
  | tail _ hstep ih =>
    obtain ⟨i, j, hij, hi, hj⟩ := ih
    obtain ⟨j', k, hjk, hj', hk⟩ := h.exists_isParent_of_nested hstep
    rw [← hj.eq hj'] at hjk
    exact ⟨i, k, hij.tail hjk, hi, hk⟩

/-- The cycles of the graph are the tables that are nested in themselves. -/
theorem hasCycle_iff_nested (h : graph.Represents root rest) :
    graph.HasCycle ↔ ∃ table, TransGen (Nested rest) table table := by
  constructor
  · intro hcycle
    obtain ⟨index, hcycle⟩ := hcycle
    -- What is on a cycle has a child, so it is a table.
    obtain ⟨next, hnext, -⟩ := TransGen.head'_iff.1 hcycle
    exact ⟨_, h.transGen_nested_of_transGen hcycle hnext⟩
  · intro hnested
    obtain ⟨table, hnested⟩ := hnested
    obtain ⟨i, j, hij, hi, hj⟩ := h.transGen_of_transGen_nested hnested
    rw [hi.eq hj] at hij
    exact ⟨j, hij⟩

theorem children_ne_nil_iff (h : graph.Represents root rest) {index : Nat} {table : String}
    (hindex : graph.StandsFor index .entity table) :
    graph.children index ≠ [] ↔
      columnsUnder rest table ≠ [] ∨ ∃ inner, Nested rest table inner := by
  constructor
  · intro hchildren
    obtain ⟨child, hchild⟩ := List.exists_mem_of_ne_nil _ hchildren
    obtain ⟨node, hnode, hstands⟩ := h.exists_standsFor (lt_of_mem_children hchild)
    cases hkind : node.kind with
    | entity =>
      rw [hkind] at hstands
      exact Or.inr ⟨node.name, (h.isParent_iff_nested hindex hstands).1 hchild⟩
    | component type =>
      rw [hkind] at hstands
      have := (h.isParent_iff_mem_columnsUnder hindex hstands).1 hchild
      exact Or.inl (List.ne_nil_of_mem this)
  · intro hinside
    rcases hinside with hcolumns | ⟨inner, hnested⟩
    · obtain ⟨⟨label, type⟩, hin⟩ := List.exists_mem_of_ne_nil _ hcolumns
      obtain ⟨registration, hregistration, -, hkind, rfl⟩ := mem_columnsUnder.1 hin
      obtain ⟨j, hj⟩ := h.exists_standsFor_node hregistration
      rw [hkind] at hj
      exact List.ne_nil_of_mem ((h.isParent_iff_mem_columnsUnder hindex hj).2 hin)
    · obtain ⟨i, j, hij, hi, -⟩ := h.exists_isParent_of_nested hnested
      rw [hi.eq hindex] at hij
      exact List.ne_nil_of_mem hij

/-- A name with something registered under it is the name of a table. -/
theorem exists_standsFor_of_inside (h : graph.Represents root rest) {table : String}
    (hinside : columnsUnder rest table ≠ [] ∨ ∃ inner, Nested rest table inner) :
    ∃ index, graph.StandsFor index .entity table := by
  rcases hinside with hcolumns | ⟨inner, hnested⟩
  · obtain ⟨⟨label, type⟩, hin⟩ := List.exists_mem_of_ne_nil _ hcolumns
    obtain ⟨registration, hregistration, ⟨outer, haround, rfl⟩, -⟩ := mem_columnsUnder.1 hin
    exact h.exists_standsFor_around hregistration haround
  · obtain ⟨i, j, -, hi, -⟩ := h.exists_isParent_of_nested hnested
    exact ⟨i, hi⟩

/-- Every node with children becomes a table. -/
theorem mem_promoted_iff (h : graph.Represents root rest) {index : Nat} :
    index ∈ graph.promoted 0 ↔ index ≠ 0 ∧ graph.children index ≠ [] := by
  have hentity : graph.children index ≠ [] → (graph.node? index).any Node.isEntity := by
    intro hchildren
    obtain ⟨child, hchild⟩ := List.exists_mem_of_ne_nil _ hchildren
    obtain ⟨node, hnode, -⟩ := node?_eq_some (IsParent.lt_left hchild)
    rw [hnode, Option.any_some, Node.isEntity, (h.isTable_of_isParent hchild hnode).2]
    rfl
  rw [mem_promoted_iff_children_ne_nil h.length_pos hentity]
  refine ⟨And.right, fun hboth => ⟨?_, hboth⟩⟩
  obtain ⟨child, hchild⟩ := List.exists_mem_of_ne_nil _ hboth.2
  exact h.reaches (IsParent.lt_left hchild)

theorem mem_planned (h : graph.Represents root rest) (hacyclic : ¬ graph.HasCycle)
    {index : Nat} : index ∈ graph.planned ↔ index = 0 ∨ graph.children index ≠ [] := by
  rw [planned, List.mem_cons, mem_promotedOrder hacyclic, h.mem_promoted_iff]
  tauto

/-- What becomes a table is one. -/
theorem standsFor_of_mem_planned (h : graph.Represents root rest)
    (hacyclic : ¬ graph.HasCycle) {index : Nat} (hin : index ∈ graph.planned) :
    graph.StandsFor index .entity (graph.nameOf index) := by
  rcases (h.mem_planned hacyclic).1 hin with rfl | hchildren
  · rw [h.nameOf_zero]
    exact h.standsFor_root
  · obtain ⟨child, hchild⟩ := List.exists_mem_of_ne_nil _ hchildren
    exact h.standsFor_of_isParent hchild

theorem mem_map_planned (h : graph.Represents root rest) (hacyclic : ¬ graph.HasCycle)
    {table : String} : table ∈ graph.planned.map graph.nameOf ↔
      table = root.name ∨ columnsUnder rest table ≠ [] ∨ ∃ inner, Nested rest table inner := by
  rw [List.mem_map]
  constructor
  · intro hin
    obtain ⟨index, hin, rfl⟩ := hin
    have hindex := h.standsFor_of_mem_planned hacyclic hin
    rcases (h.mem_planned hacyclic).1 hin with rfl | hchildren
    · exact Or.inl h.nameOf_zero
    · exact Or.inr ((h.children_ne_nil_iff hindex).1 hchildren)
  · intro htable
    rcases htable with rfl | hinside
    · exact ⟨0, List.mem_cons_self, h.nameOf_zero⟩
    · obtain ⟨index, hindex⟩ := h.exists_standsFor_of_inside hinside
      have hchildren := (h.children_ne_nil_iff hindex).2 hinside
      exact ⟨index, (h.mem_planned hacyclic).2 (Or.inr hchildren), h.nameOf_eq hindex⟩

theorem map_nameOf_planned_nodup (h : graph.Represents root rest)
    (hacyclic : ¬ graph.HasCycle) : (graph.planned.map graph.nameOf).Nodup := by
  refine List.Nodup.map_on ?_ graph.planned_nodup
  intro first hfirst second hsecond hsame
  have hstands := h.standsFor_of_mem_planned hacyclic hsecond
  rw [← hsame] at hstands
  exact (h.standsFor_of_mem_planned hacyclic hfirst).eq hstands

/-- A child gives a table a column when it is a component, and then it is not
promoted. -/
theorem columnId_child (h : graph.Represents root rest) {index child : Nat} {label : String}
    (hindex : graph.StandsFor index .entity label) (hchild : graph.IsParent index child)
    {promoted : List Nat} (hpromoted : ∀ other ∈ promoted, graph.children other ≠ [])
    (table : Table) :
    ((if child ∉ promoted then (graph.node? child).bind (·.column? table) else none).map
        fun column => columnId column.field) =
      if graph.idOf child ∈ (columnsUnder rest label).map columnId then some (graph.idOf child)
      else none := by
  obtain ⟨node, hnode, hstands⟩ := h.exists_standsFor hchild.lt_right
  rw [hnode, Option.bind_some, hstands.idOf]
  cases hkind : node.kind with
  | entity =>
    have hcolumn : node.column? table = none := by
      rw [Node.column?, hkind]
      rfl
    rw [hcolumn, ite_self, Option.map_none, if_neg]
    intro hin
    obtain ⟨column, -, hsame⟩ := List.mem_map.1 hin
    exact tableId_ne_columnId node.name column hsame.symm
  | component type =>
    rw [hkind] at hstands
    have hout : child ∉ promoted := by
      intro hin
      obtain ⟨other, hother⟩ := List.exists_mem_of_ne_nil _ (hpromoted child hin)
      have htable := (h.isTable_of_isParent hother hnode).2
      rw [hkind] at htable
      exact NodeKind.noConfusion htable
    have hin := (h.isParent_iff_mem_columnsUnder hindex hstands).1 hchild
    have hcolumn : node.column? table =
        some ⟨node.id, node.name, type, node.key, table.parentPath, table.keyPath⟩ := by
      rw [Node.column?, hkind]
      rfl
    rw [if_pos hout, hcolumn, Option.map_some]
    exact (if_pos (List.mem_map_of_mem (f := columnId) hin)).symm

/-- The columns of a filled table by their identifiers. -/
theorem map_columnId_fillTable (h : graph.Represents root rest) {index : Nat} {label : String}
    (hindex : graph.StandsFor index .entity label) {promoted : List Nat}
    (hpromoted : ∀ other ∈ promoted, graph.children other ≠ [])
    {table : Table} (hbare : table.columns = []) :
    ((graph.fillTable promoted index table).fields).map columnId =
      ((graph.children index).map graph.idOf).filter
        (· ∈ (columnsUnder rest label).map columnId) := by
  rw [fillTable_eq _ hbare, Table.fields, List.map_map, List.filterMap_filterMap,
    List.filterMap_filter, List.map_filterMap, ← List.filterMap_eq_filter, List.filterMap_map]
  apply List.filterMap_congr
  intro child hchild
  have hstep := h.columnId_child hindex hchild hpromoted table
  simp only [Function.comp_apply, Option.guard, decide_eq_true_eq] at hstep ⊢
  exact hstep

/-- A column is linked to the table that it is registered under. -/
theorem link?_of_component (h : graph.Represents root rest) {registration : Registration}
    (hin : registration ∈ rest) {table : Node} (haround : registration.around = some table)
    {type : ScalarType} (hkind : registration.node.kind = .component type) :
    registration.link? = some (tableId table.name, columnId (registration.node.name, type)) := by
  have hid := h.id_eq hin
  rw [hkind] at hid
  apply Registration.link?_eq_some_iff.2
  exact ⟨table, haround, (h.isTable_of_around hin haround).id_eq, hid, tableId_ne_columnId _ _⟩

/-- A link from a table to a column is a registration of the column. -/
theorem columnId_link? (h : graph.Represents root rest) (label : String)
    {registration : Registration} (hin : registration ∈ rest) :
    (((registration.link?.filter (·.1 = tableId label)).map Prod.snd).filter
        (· ∈ (columnsUnder rest label).map columnId)) =
      (registration.columnOf? label).map columnId := by
  obtain ⟨table, haround, -⟩ := h.isTable_around registration hin
  cases hkind : registration.node.kind with
  | entity =>
    have hcolumn : registration.columnOf? label = none := by
      simp [Registration.columnOf?, hkind, NodeKind.fieldType?]
    rw [hcolumn, Option.map_none, Option.filter_eq_none_iff]
    intro id hlink hregistered
    obtain ⟨column, -, hsame⟩ := List.mem_map.1 (of_decide_eq_true hregistered)
    obtain ⟨⟨parent, child⟩, hfilter, rfl⟩ := Option.map_eq_some_iff.1 hlink
    obtain ⟨-, -, -, hchild, -⟩ :=
      Registration.link?_eq_some_iff.1 (Option.filter_eq_some_iff.1 hfilter).1
    rw [h.id_eq hin, hkind] at hchild
    exact tableId_ne_columnId _ column (hchild.trans hsame.symm)
  | component type =>
    have hlink := h.link?_of_component hin haround hkind
    by_cases houter : table.name = label
    · have hcolumn : registration.columnOf? label = some (registration.node.name, type) :=
        Registration.columnOf?_eq_some_iff.2 ⟨⟨table, haround, houter⟩, hkind, rfl⟩
      have hmem : (registration.node.name, type) ∈ columnsUnder rest label :=
        List.mem_filterMap.2 ⟨registration, hin, hcolumn⟩
      have hregistered := List.mem_map_of_mem (f := columnId) hmem
      simp [hlink, hcolumn, houter, hregistered]
    · have hcolumn : registration.columnOf? label = none := by
        simp [Registration.columnOf?, haround, houter]
      have hother : tableId table.name ≠ tableId label := fun hid =>
        houter (nodeIdentifier_plain_inj.1 hid).2
      simp [hlink, hcolumn, hother]

/-- The columns of a filled table are the columns that were registered under
it, each once, in order of first arrival. -/
theorem fields_fillTable (h : graph.Represents root rest) {index : Nat} {label : String}
    (hindex : graph.StandsFor index .entity label) {promoted : List Nat}
    (hpromoted : ∀ other ∈ promoted, graph.children other ≠ [])
    {table : Table} (hbare : table.columns = []) :
    (graph.fillTable promoted index table).fields =
      firstArrivals (columnsUnder rest label) := by
  have hlinks : ((((rest.filterMap Registration.link?).filter (·.1 = tableId label)).map
      Prod.snd).filter (· ∈ (columnsUnder rest label).map columnId)) =
      (columnsUnder rest label).map columnId := by
    rw [List.filter_filterMap, List.map_filterMap, List.filter_filterMap]
    conv_rhs => rw [columnsUnder, List.map_filterMap]
    exact List.filterMap_congr fun registration hin => h.columnId_link? label hin
  apply List.map_injective_iff.2 columnId_injective
  rw [h.map_columnId_fillTable hindex hpromoted hbare, map_idOf_children hindex.lt,
    h.links_eq, hindex.idOf, ← firstArrivals_filter, ← firstArrivals_map,
    ← firstArrivals_filter]
  · exact (congrArg firstArrivals hlinks).trans
      (firstArrivals_map columnId fun _ _ _ _ hsame => columnId_injective hsame)
  · intro first hfirst second hsecond hsame
    have hleft := (List.mem_filter.1 hfirst).2
    have hright := (List.mem_filter.1 hsecond).2
    simp only [decide_eq_true_eq] at hleft hright
    exact Prod.ext (hleft.trans hright.symm) hsame

end Represents

theorem names_relationshipsAt (graph : Graph) (index : Nat) :
    (graph.relationshipsAt index).map Relationship.names =
      ((graph.parents index).map graph.nameOf).map fun outer => (outer, graph.nameOf index) := by
  rw [relationshipsAt, List.map_map, List.map_map]
  rfl

namespace Represents

/-- The columns of the planned tables are the registered ones. -/
theorem fields_layout (h : graph.Represents root rest) (hacyclic : ¬ graph.HasCycle)
    {table : Table} (hin : table ∈ graph.layout.tables) :
    table.fields = firstArrivals (columnsUnder rest table.name) := by
  obtain ⟨index, hindex, namePath, keyPath, rfl⟩ := exists_fillTable_of_mem_layout hin
  have hpromoted : ∀ other ∈ graph.promoted 0, graph.children other ≠ [] := by
    intro other hother
    exact (h.mem_promoted_iff.1 hother).2
  rw [fillTable_name]
  exact h.fields_fillTable (h.standsFor_of_mem_planned hacyclic hindex) hpromoted rfl

/-- The parents of a planned table are the tables it is nested in. -/
theorem mem_parents_iff_nested (h : graph.Represents root rest) {index : Nat}
    {outer inner : String} (hindex : graph.StandsFor index .entity inner) :
    outer ∈ (graph.parents index).map graph.nameOf ↔ Nested rest outer inner := by
  rw [List.mem_map]
  constructor
  · intro houter
    obtain ⟨parent, hparent, rfl⟩ := houter
    have hstep := isParent_iff_mem_parents.2 hparent
    exact (h.isParent_iff_nested (h.standsFor_of_isParent hstep) hindex).1 hstep
  · intro hnested
    obtain ⟨i, j, hij, hi, hj⟩ := h.exists_isParent_of_nested hnested
    rw [hj.eq hindex] at hij
    exact ⟨i, isParent_iff_mem_parents.1 hij, h.nameOf_eq hi⟩

theorem map_nameOf_parents_nodup (h : graph.Represents root rest) (index : Nat) :
    ((graph.parents index).map graph.nameOf).Nodup := by
  refine List.Nodup.map_on ?_ (parents_nodup _ index)
  intro first hfirst second hsecond hsame
  have hother := h.standsFor_of_isParent (isParent_iff_mem_parents.2 hsecond)
  rw [← hsame] at hother
  exact (h.standsFor_of_isParent (isParent_iff_mem_parents.2 hfirst)).eq hother

/-- A planned table that is nested in another is not the root, for the root
reaches whatever is above it. -/
theorem mem_promotedOrder_of_isParent (h : graph.Represents root rest)
    (hacyclic : ¬ graph.HasCycle) {parent index : Nat} (hparent : graph.IsParent parent index)
    (hplanned : index ∈ graph.planned) : index ∈ graph.promotedOrder := by
  rcases List.mem_cons.1 hplanned with rfl | hindex
  · have hreach := h.reaches hparent.lt_left
    exact absurd ⟨0, TransGen.tail' hreach hparent⟩ hacyclic
  · exact hindex

/-- The relationships of the plan are the nested pairs whose inner table is
planned. -/
theorem mem_names_layout (h : graph.Represents root rest) (hacyclic : ¬ graph.HasCycle)
    {outer inner : String} :
    (outer, inner) ∈ graph.layout.relationships.map Relationship.names ↔
      Nested rest outer inner ∧ inner ∈ graph.planned.map graph.nameOf := by
  rw [layout, List.map_flatMap, List.mem_flatMap]
  constructor
  · intro hrelationship
    obtain ⟨index, hindex, hin⟩ := hrelationship
    rw [names_relationshipsAt, List.mem_map] at hin
    obtain ⟨parent, hparent, heq⟩ := hin
    obtain ⟨rfl, rfl⟩ := Prod.mk.inj heq
    have hplanned : index ∈ graph.planned := List.mem_cons_of_mem 0 hindex
    have hstands := h.standsFor_of_mem_planned hacyclic hplanned
    exact ⟨(h.mem_parents_iff_nested hstands).1 hparent, List.mem_map_of_mem hplanned⟩
  · intro hboth
    obtain ⟨hnested, hin⟩ := hboth
    obtain ⟨index, hplanned, rfl⟩ := List.mem_map.1 hin
    have hstands := h.standsFor_of_mem_planned hacyclic hplanned
    have houter := (h.mem_parents_iff_nested hstands).2 hnested
    obtain ⟨parent, hparent, -⟩ := List.mem_map.1 houter
    have hstep := isParent_iff_mem_parents.2 hparent
    refine ⟨index, h.mem_promotedOrder_of_isParent hacyclic hstep hplanned, ?_⟩
    rw [names_relationshipsAt]
    exact List.mem_map_of_mem houter

theorem names_layout_nodup (h : graph.Represents root rest) (hacyclic : ¬ graph.HasCycle) :
    (graph.layout.relationships.map Relationship.names).Nodup := by
  rw [layout, List.map_flatMap, List.nodup_flatMap]
  constructor
  · intro index _
    rw [names_relationshipsAt]
    refine List.Nodup.map ?_ (h.map_nameOf_parents_nodup index)
    intro first second hsame
    exact (Prod.mk.inj hsame).1
  · have horder := (List.nodup_cons.1 (h.map_nameOf_planned_nodup hacyclic)).2
    refine (List.pairwise_map.1 horder).imp ?_
    intro first second hne
    rw [Function.onFun, names_relationshipsAt, names_relationshipsAt]
    intro pair hfirst hsecond
    obtain ⟨outer, -, rfl⟩ := List.mem_map.1 hfirst
    obtain ⟨outer', -, heq⟩ := List.mem_map.1 hsecond
    exact hne (Prod.mk.inj heq).2.symm

theorem reads_layout (h : graph.Represents root rest) (hacyclic : ¬ graph.HasCycle)
    (place : List String) :
    graph.layout.Reads (⟨none, root, place⟩ :: rest) root.name where
  names_nodup := by
    rw [map_name_layout]
    exact h.map_nameOf_planned_nodup hacyclic
  mem_names table := by
    rw [map_name_layout, nested_cons_root, columnsUnder_cons_root]
    exact h.mem_map_planned hacyclic
  fields_eq table hin := by
    rw [columnsUnder_cons_root]
    exact h.fields_layout hacyclic hin
  relationships_nodup := h.names_layout_nodup hacyclic
  mem_relationships outer inner := by
    rw [map_name_layout, nested_cons_root]
    exact h.mem_names_layout hacyclic

end Represents

/-- The plan of a document. There is one unless some table is nested in itself
through others, and it is the relational reading of the registrations. -/
theorem plan_of_walkDocument {name : String} {schema : Json} {label : String} {graph : Graph}
    {index : Nat} (h : walkDocument (empty name) schema label = (graph, .ok (some index))) :
    ((∃ plan, graph.plan = .ok plan) ↔
        ∀ table, ¬ TransGen (Nested (traceDocument schema label).registrations) table table) ∧
      ∀ plan, graph.plan = .ok plan →
        plan.Reads (traceDocument schema label).registrations (Naming.tableName label) := by
  have hnil := nodes_ne_nil_of_walkDocument h
  obtain ⟨rest, hregistrations, hgraph⟩ := represents_of_walkDocument h hnil
  rw [hregistrations, nested_cons_root]
  by_cases hcycle : graph.HasCycle
  · obtain ⟨least, -, hplan⟩ := plan_of_hasCycle hcycle
    obtain ⟨table, htable⟩ := hgraph.hasCycle_iff_nested.1 hcycle
    rw [hplan]
    refine ⟨?_, by simp⟩
    simp only [reduceCtorEq, exists_false, false_iff, not_forall, not_not]
    exact ⟨table, htable⟩
  · rw [plan_of_acyclic hnil hcycle]
    constructor
    · refine iff_of_true ⟨_, rfl⟩ fun table htable => hcycle ?_
      exact hgraph.hasCycle_iff_nested.2 ⟨table, htable⟩
    · intro plan hplan
      rw [← Except.ok.inj hplan]
      have hreads := hgraph.reads_layout hcycle []
      rwa [Node.name_table] at hreads

/-- A schema with a column, a nested object and an array of objects. -/
def librarySchema : Json :=
  .obj [("$schema", .str "x"), ("properties", .obj [
    ("name", .obj [("type", .str "string")]),
    ("owner", .obj [("properties", .obj [("name", .obj [("type", .str "string")])])]),
    ("shelves", .obj [
      ("items", .obj [("properties", .obj [("room", .obj [("type", .str "integer")])]),
        ("title", .str "shelf")]),
      ("type", .str "array")])])]

theorem plan_of_librarySchema :
    (walkDocument (empty "g") librarySchema "library").2 = .ok (some 0) ∧
      ((∃ plan, (walkDocument (empty "g") librarySchema "library").1.plan = .ok plan) ↔
        ∀ table, ¬ TransGen
          (Nested (traceDocument librarySchema "library").registrations) table table) ∧
      ∀ plan, (walkDocument (empty "g") librarySchema "library").1.plan = .ok plan →
        plan.Reads (traceDocument librarySchema "library").registrations
          (Naming.tableName "library") := by
  have hresult : (walkDocument (empty "g") librarySchema "library").2 = .ok (some 0) := by
    apply eq_ok_of_toOption
    decide +kernel
  have hwalk := eq_mk_of_snd_eq hresult
  have hplan := plan_of_walkDocument hwalk
  exact ⟨hresult, hplan⟩

end Graph

end DocumentViews

import Mathlib
import DocumentViews.Proofs.Plan.Outcome
import DocumentViews.Proofs.Schema.Document

/-!
The relational reading of a schema. A table is nested in another when it is
registered under it by another name, and its columns are the scalars that are
registered under it. The edges of the graph of a document say the same.
-/

namespace DocumentViews

open Relation

namespace Schema

/-- A table is registered under a table of another name. -/
def Nested (registrations : List Registration) (outer inner : String) : Prop :=
  outer ≠ inner ∧ ∃ registration ∈ registrations,
    (∃ table, registration.around = some table ∧ table.name = outer) ∧
      registration.node.kind = .entity ∧ registration.node.name = inner

/-- The name and the type of the column that a registration gives to a table. -/
def Registration.columnOf? (registration : Registration) (table : String) :
    Option (String × ScalarType) :=
  if registration.around.any (·.name = table) then
    registration.node.kind.fieldType?.map (registration.node.name, ·)
  else none

/-- The columns that are registered under a table, in their order. -/
def columnsUnder (registrations : List Registration) (table : String) :
    List (String × ScalarType) :=
  registrations.filterMap (·.columnOf? table)

theorem Registration.columnOf?_eq_some_iff {registration : Registration} {table name : String}
    {type : ScalarType} : registration.columnOf? table = some (name, type) ↔
      (∃ outer, registration.around = some outer ∧ outer.name = table) ∧
        registration.node.kind = .component type ∧ registration.node.name = name := by
  have hany : registration.around.any (·.name = table) ↔
      ∃ outer, registration.around = some outer ∧ outer.name = table := by
    cases registration.around with
    | none => simp
    | some outer => simp
  unfold Registration.columnOf?
  by_cases houter : registration.around.any (·.name = table)
  · rw [if_pos houter]
    cases hkind : registration.node.kind with
    | entity => simp [NodeKind.fieldType?]
    | component other =>
      simp only [NodeKind.fieldType?, Option.map_some, Option.some.injEq, Prod.mk.injEq,
        NodeKind.component.injEq]
      have := hany.1 houter
      tauto
  · rw [if_neg houter]
    constructor
    · intro h
      simp at h
    · intro hboth
      obtain ⟨h, -⟩ := hboth
      exact absurd (hany.2 h) houter

theorem mem_columnsUnder {registrations : List Registration} {table name : String}
    {type : ScalarType} : (name, type) ∈ columnsUnder registrations table ↔
      ∃ registration ∈ registrations,
        (∃ outer, registration.around = some outer ∧ outer.name = table) ∧
          registration.node.kind = .component type ∧ registration.node.name = name := by
  simp only [columnsUnder, List.mem_filterMap, Registration.columnOf?_eq_some_iff]

/-- The root stands under no table. -/
theorem nested_cons_root (root : Node) (place : List String) (rest : List Registration) :
    Nested (⟨none, root, place⟩ :: rest) = Nested rest := by
  funext outer inner
  simp [Nested]

theorem columnsUnder_cons_root (root : Node) (place : List String) (rest : List Registration)
    (table : String) :
    columnsUnder (⟨none, root, place⟩ :: rest) table = columnsUnder rest table := rfl

end Schema

def tableId (name : String) : String :=
  nodeIdentifier .entity name []

def columnId (column : String × ScalarType) : String :=
  nodeIdentifier (.component column.2) column.1 []

theorem columnId_injective : Function.Injective columnId := by
  rintro ⟨name, type⟩ ⟨name', type'⟩ h
  obtain ⟨hkind, hname⟩ := nodeIdentifier_plain_inj.1 h
  exact Prod.ext hname (NodeKind.component.inj hkind)

theorem tableId_ne_columnId (name : String) (column : String × ScalarType) :
    tableId name ≠ columnId column := by
  intro h
  have := (nodeIdentifier_plain_inj.1 h).1
  simp at this

theorem Node.IsTable.id_eq {node : Node} (h : node.IsTable) : node.id = tableId node.name := by
  rw [node.id_eq, h.1, h.2, tableId]

theorem Node.id_table (name : String) (key : Option String) :
    (table name key).id = tableId name := rfl

namespace Graph

open Schema

/-- The node of a number is the plain one of a kind and a name. -/
structure StandsFor (graph : Graph) (index : Nat) (kind : NodeKind) (name : String) : Prop where
  lt : index < graph.nodes.length
  idOf : graph.idOf index = nodeIdentifier kind name []

theorem StandsFor.eq {graph : Graph} {first second : Nat} {kind : NodeKind} {name : String}
    (hfirst : graph.StandsFor first kind name) (hsecond : graph.StandsFor second kind name) :
    first = second :=
  idOf_injective hfirst.lt hsecond.lt (hfirst.idOf.trans hsecond.idOf.symm)

theorem StandsFor.inj {graph : Graph} {index : Nat} {kind kind' : NodeKind} {name name' : String}
    (h : graph.StandsFor index kind name) (h' : graph.StandsFor index kind' name') :
    kind = kind' ∧ name = name' :=
  nodeIdentifier_plain_inj.1 (h.idOf.symm.trans h'.idOf)

variable {graph : Graph} {root : Node} {rest : List Registration}

namespace Represents

theorem standsFor_of_node? (h : graph.Represents root rest) {index : Nat} {node : Node}
    (hnode : graph.node? index = some node) : graph.StandsFor index node.kind node.name := by
  refine ⟨(List.getElem?_eq_some_iff.1 hnode).1, ?_⟩
  rw [idOf, hnode, Option.map_some, Option.getD_some]
  exact (h.isPlain_of_node? hnode).id_eq

theorem exists_standsFor (h : graph.Represents root rest) {index : Nat}
    (hlt : index < graph.nodes.length) :
    ∃ node, graph.node? index = some node ∧ graph.StandsFor index node.kind node.name := by
  obtain ⟨node, hnode, -⟩ := node?_eq_some hlt
  exact ⟨node, hnode, h.standsFor_of_node? hnode⟩

/-- What has a child is the table of its name. -/
theorem standsFor_of_isParent (h : graph.Represents root rest) {i j : Nat}
    (hparent : graph.IsParent i j) : graph.StandsFor i .entity (graph.nameOf i) := by
  obtain ⟨node, hnode, hstands⟩ := h.exists_standsFor hparent.lt_left
  rw [(h.isTable_of_isParent hparent hnode).2] at hstands
  rwa [nameOf, hnode, Option.map_some, Option.getD_some]

theorem nameOf_eq (h : graph.Represents root rest) {index : Nat} {kind : NodeKind}
    {label : String} (hindex : graph.StandsFor index kind label) :
    graph.nameOf index = label := by
  obtain ⟨node, hnode, hstands⟩ := h.exists_standsFor hindex.lt
  rw [nameOf, hnode, Option.map_some, Option.getD_some]
  exact (hstands.inj hindex).2

theorem standsFor_root (h : graph.Represents root rest) :
    graph.StandsFor 0 .entity root.name := by
  refine ⟨h.length_pos, ?_⟩
  rw [h.idOf_zero, h.root_isTable.id_eq, tableId]

theorem nameOf_zero (h : graph.Represents root rest) : graph.nameOf 0 = root.name :=
  h.nameOf_eq h.standsFor_root

/-- What was registered is in the graph. -/
theorem exists_standsFor_node (h : graph.Represents root rest) {registration : Registration}
    (hin : registration ∈ rest) :
    ∃ index, graph.StandsFor index registration.node.kind registration.node.name := by
  obtain ⟨index, hlt, hid⟩ := h.exists_index
    (List.mem_cons_of_mem _ (List.mem_map.2 ⟨registration, hin, rfl⟩))
  exact ⟨index, hlt, hid.trans (h.id_eq hin)⟩

/-- What something was registered under is in the graph. -/
theorem exists_standsFor_around (h : graph.Represents root rest) {registration : Registration}
    (hin : registration ∈ rest) {table : Node} (haround : registration.around = some table) :
    ∃ index, graph.StandsFor index .entity table.name := by
  have hknown : table.id ∈ root.id :: rest.map (·.node.id) := h.grounded.mem_of_around hin haround
  obtain ⟨index, hlt, hid⟩ := h.exists_index hknown
  exact ⟨index, hlt, hid.trans (h.isTable_of_around hin haround).id_eq⟩

/-- An edge is a registration under a node that is not the same. -/
theorem isParent_iff_registered (h : graph.Represents root rest) {i j : Nat}
    {outer inner : String} {kind : NodeKind} (hi : graph.StandsFor i .entity outer)
    (hj : graph.StandsFor j kind inner) :
    graph.IsParent i j ↔
      tableId outer ≠ nodeIdentifier kind inner [] ∧ ∃ registration ∈ rest,
        (∃ table, registration.around = some table ∧ table.name = outer) ∧
          registration.node.kind = kind ∧ registration.node.name = inner := by
  rw [← Graph.mem_links hi.lt hj.lt, h.mem_links, hi.idOf, hj.idOf]
  constructor
  · intro hregistered
    obtain ⟨registration, hin, table, haround, hid, hid', hne⟩ := hregistered
    rw [(h.isTable_of_around hin haround).id_eq] at hid
    rw [h.id_eq hin] at hid'
    obtain ⟨-, hname⟩ := nodeIdentifier_plain_inj.1 hid
    obtain ⟨hkind, hname'⟩ := nodeIdentifier_plain_inj.1 hid'
    exact ⟨hne, registration, hin, ⟨table, haround, hname⟩, hkind, hname'⟩
  · intro hregistered
    obtain ⟨hne, registration, hin, ⟨table, haround, rfl⟩, rfl, rfl⟩ := hregistered
    exact ⟨registration, hin, table, haround, (h.isTable_of_around hin haround).id_eq,
      h.id_eq hin, hne⟩

theorem isParent_iff_nested (h : graph.Represents root rest) {i j : Nat} {outer inner : String}
    (hi : graph.StandsFor i .entity outer) (hj : graph.StandsFor j .entity inner) :
    graph.IsParent i j ↔ Nested rest outer inner := by
  rw [h.isParent_iff_registered hi hj, Nested, tableId, ne_eq, nodeIdentifier_plain_inj]
  simp

theorem isParent_iff_mem_columnsUnder (h : graph.Represents root rest) {i j : Nat}
    {outer inner : String} {type : ScalarType} (hi : graph.StandsFor i .entity outer)
    (hj : graph.StandsFor j (.component type) inner) :
    graph.IsParent i j ↔ (inner, type) ∈ columnsUnder rest outer := by
  rw [h.isParent_iff_registered hi hj, mem_columnsUnder, tableId, ne_eq,
    nodeIdentifier_plain_inj]
  simp

end Represents

end Graph

end DocumentViews

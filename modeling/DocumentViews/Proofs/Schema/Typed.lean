import Mathlib
import DocumentViews.Proofs.Naming.Snake
import DocumentViews.Proofs.Plan.Outcome
import DocumentViews.Proofs.Schema.Growth

/-!
Graphs of tables and columns. Edges start at tables and say by their type
whether they lead to a table or to a column, and every node goes by a name in
snake case. A walk keeps a graph so, be it whole or cut off by an error, and
so do walks over any number of documents. In such a graph a node is told by its
name and its kind, and no two planned tables share a name.
-/

namespace DocumentViews

namespace Schema

/-- A registration of a named node without payload, under a table if under
anything. -/
structure Registration.IsTyped (registration : Registration) : Prop where
  isPlain : registration.node.IsPlain
  isSnake : Naming.IsSnake registration.node.name.toList
  isTable_around : ∀ table ∈ registration.around, table.IsTable

/-- Under a table, or under nothing, a fragment registers only tables and
columns. -/
theorem Trace.IsUnder.isTyped {around : Option Node} {place : List String} {trace : Trace}
    (h : trace.IsUnder around place) (haround : ∀ table ∈ around, table.IsTable) :
    ∀ registration ∈ trace.registrations, registration.IsTyped := by
  induction h with
  | fault => simp [Trace.fault]
  | nothing => simp [Trace.nothing]
  | column table name key type place =>
    intro registration hin
    rw [List.mem_singleton.1 hin]
    refine ⟨Node.isPlain_field _ key type, ?_, haround⟩
    rw [Node.name_field]
    exact Naming.isSnake_columnName name
  | table around name key place parts hparts ih =>
    intro registration hin
    rcases List.mem_cons.1 hin with heq | hin
    · rw [heq]
      refine ⟨Node.isPlain_table _ key, ?_, haround⟩
      rw [Node.name_table]
      exact Naming.isSnake_tableName name
    · refine ih (fun table htable => ?_) registration hin
      obtain rfl := Option.some.inj htable
      exact Node.isTable_table _ key
  | andThen table place first later hfirst hlater ihFirst ihLater =>
    intro registration hin
    rcases Trace.mem_andThen hin with hin | hin
    · exact ihFirst haround registration hin
    · exact ihLater haround registration hin

end Schema

namespace Graph

open Schema

variable {graph grown : Graph} {registrations : List Registration}

/-- All nodes are named and without payload, edges start at tables, and the
only attribute of an edge is the type that the kind of its child gives it. -/
structure IsTyped (graph : Graph) : Prop where
  isPlain : ∀ node ∈ graph.nodes, node.IsPlain
  isSnake : ∀ node ∈ graph.nodes, Naming.IsSnake node.name.toList
  kind_parent : ∀ {i j : Nat} {node : Node},
    graph.IsParent i j → graph.node? i = some node → node.kind = .entity
  attributes?_eq : ∀ {i j : Nat} {node : Node}, graph.IsParent i j → graph.node? j = some node →
    graph.attributes? i j = some (edgeAttributes node.kind.edgeType)

theorem isTyped_empty (name : String) : (empty name).IsTyped where
  isPlain := by simp [empty]
  isSnake := by simp [empty]
  kind_parent := fun h => absurd h (by simp [IsParent, children, empty])
  attributes?_eq := fun h => absurd h (by simp [IsParent, children, empty])

/-- A registration joins a table to a node of its own kind. -/
theorem Joins.kinds_eq {registration : Registration} {i j : Nat}
    (h : graph.Joins registration i j) (htyped : registration.IsTyped)
    (hplain : ∀ node ∈ graph.nodes, node.IsPlain) {parent child : Node}
    (hparent : graph.node? i = some parent) (hchild : graph.node? j = some child) :
    parent.kind = .entity ∧ child.kind = registration.node.kind := by
  obtain ⟨_, _, hlink, hi, hj⟩ := h
  obtain ⟨table, haround, rfl, rfl, -⟩ := Registration.link?_eq_some_iff.1 hlink
  have htable := htyped.isTable_around table haround
  have hparentId : parent.id = table.id :=
    (idOf_eq hparent).symm.trans (indexOf?_eq_some_iff.1 hi).2
  have hchildId : child.id = registration.node.id :=
    (idOf_eq hchild).symm.trans (indexOf?_eq_some_iff.1 hj).2
  have hparentPlain := hplain parent (List.mem_of_getElem? hparent)
  have hchildPlain := hplain child (List.mem_of_getElem? hchild)
  exact ⟨((hparentPlain.id_eq_iff htable.1).1 hparentId).1.trans htable.2,
    ((hchildPlain.id_eq_iff htyped.isPlain).1 hchildId).1⟩

theorem insert_edgeAttributes (old new : String) :
    Members.insert (edgeAttributes old) "edge_type" (.str new) = edgeAttributes new := rfl

namespace IsTyped

/-- Setting the type of an edge leaves nothing but the type. -/
theorem insert_attributes? (h : graph.IsTyped) (i j : Nat) (type : String) :
    ((graph.attributes? i j).getD []).insert "edge_type" (.str type) = edgeAttributes type := by
  cases hattributes : graph.attributes? i j with
  | none => rfl
  | some old =>
    have hstep : graph.IsParent i j := by
      by_contra hnone
      rw [isParent_iff_mem_ends, ← attributes?_eq_none_iff, hattributes] at hnone
      simp at hnone
    obtain ⟨node, hnode, -, -⟩ := node?_eq_some hstep.lt_right
    rw [h.attributes?_eq hstep hnode] at hattributes
    rw [← hattributes]
    exact insert_edgeAttributes _ type

/-- Typed registrations keep a graph typed. -/
theorem of_grows (hgraph : graph.IsTyped) (h : graph.Grows grown registrations)
    (htyped : ∀ registration ∈ registrations, registration.IsTyped) : grown.IsTyped := by
  have hplain : ∀ node ∈ grown.nodes, node.IsPlain := by
    intro node hin
    obtain hold | ⟨registration, hregistration, rfl⟩ := h.mem_nodes hin
    · exact hgraph.isPlain node hold
    · exact (htyped registration hregistration).isPlain
  refine ⟨hplain, fun node hin => ?_, fun {i j node} hstep hnode => ?_,
    fun {i j node} hstep hnode => ?_⟩
  · obtain hold | ⟨registration, hregistration, rfl⟩ := h.mem_nodes hin
    · exact hgraph.isSnake node hold
    · exact (htyped registration hregistration).isSnake
  · obtain ⟨child, hchild, -, -⟩ := node?_eq_some hstep.lt_right
    obtain hold | ⟨registration, hregistration, hjoins⟩ := h.isParent hstep
    · exact hgraph.kind_parent hold (h.node?_eq hold.lt_left ▸ hnode)
    · exact (hjoins.kinds_eq (htyped registration hregistration) hplain hnode hchild).1
  · obtain ⟨parent, hparent, -, -⟩ := node?_eq_some hstep.lt_left
    by_cases htouched : ∃ registration ∈ registrations, grown.Joins registration i j
    · obtain ⟨registration, hregistration, hjoins⟩ := htouched
      rw [h.attributes?_of_joins registration hregistration i j hjoins, hgraph.insert_attributes?,
        (hjoins.kinds_eq (htyped registration hregistration) hplain hparent hnode).2]
    · have hapart : ∀ registration ∈ registrations, ¬ grown.Joins registration i j :=
        fun registration hin hjoins => htouched ⟨registration, hin, hjoins⟩
      have hold := (h.isParent hstep).resolve_right htouched
      rw [h.attributes?_of_not_joins i j hapart]
      exact hgraph.attributes?_eq hold (h.node?_eq hold.lt_right ▸ hnode)

/-- A walk under a table, or under nothing, keeps a graph typed, however far it
comes. -/
theorem walk (h : graph.IsTyped) {parent : Option Nat}
    (hparent : ∀ index ∈ parent, ∃ node, graph.node? index = some node ∧ node.kind = .entity)
    (fragment : Json) (name : String) : (walk graph fragment name parent).1.IsTyped := by
  have hlt : ∀ index ∈ parent, index < graph.nodes.length := by
    intro index hindex
    obtain ⟨node, hnode, -⟩ := hparent index hindex
    exact (List.getElem?_eq_some_iff.1 hnode).1
  have htable : ∀ table ∈ parent.bind graph.node?, table.IsTable := by
    intro table htable
    obtain ⟨index, hindex, hnode⟩ := Option.bind_eq_some_iff.1 htable
    obtain ⟨node, hsame, hkind⟩ := hparent index hindex
    rw [hnode] at hsame
    obtain rfl := Option.some.inj hsame
    exact ⟨h.isPlain table (List.mem_of_getElem? hnode), hkind⟩
  rw [walk_eq_follow hlt]
  exact h.of_grows (graph.grows_follow_trace fragment name parent)
    ((graph.isUnder_trace fragment name parent).isTyped htable)

/-- A node is told by its name and its kind. -/
theorem eq_of_name_of_kind (h : graph.IsTyped) {i j : Nat} {first second : Node}
    (hfirst : graph.node? i = some first) (hsecond : graph.node? j = some second)
    (hname : first.name = second.name) (hkind : first.kind = second.kind) : i = j := by
  have hid : first.id = second.id :=
    ((h.isPlain first (List.mem_of_getElem? hfirst)).id_eq_iff
      (h.isPlain second (List.mem_of_getElem? hsecond))).2 ⟨hkind, hname⟩
  rw [← idOf_eq hfirst, ← idOf_eq hsecond] at hid
  exact idOf_injective (List.getElem?_eq_some_iff.1 hfirst).1
    (List.getElem?_eq_some_iff.1 hsecond).1 hid

/-- What has children is a table, and a table is told by its name. -/
theorem eq_of_nameOf_eq (h : graph.IsTyped) {i j : Nat} (hi : graph.children i ≠ [])
    (hj : graph.children j ≠ []) (hname : graph.nameOf i = graph.nameOf j) : i = j := by
  obtain ⟨child, hchild⟩ := List.exists_mem_of_ne_nil _ hi
  obtain ⟨other, hother⟩ := List.exists_mem_of_ne_nil _ hj
  obtain ⟨first, hfirst, -, hfirstName⟩ := node?_eq_some (IsParent.lt_left hchild)
  obtain ⟨second, hsecond, -, hsecondName⟩ := node?_eq_some (IsParent.lt_left hother)
  refine h.eq_of_name_of_kind hfirst hsecond ?_ ?_
  · rw [hfirstName, hsecondName, hname]
  · rw [h.kind_parent hchild hfirst, h.kind_parent hother hsecond]

theorem map_nameOf_planned_nodup (h : graph.IsTyped) : (graph.planned.map graph.nameOf).Nodup := by
  have hchildren : ∀ index ∈ graph.promotedOrder, graph.children index ≠ [] := by
    intro index hin
    have hpromoted := mem_promoted_of_mem_promotedOrder hin
    exact children_ne_nil_of_mem_promoted (length_pos_of_mem_promoted hpromoted) hpromoted
  refine List.nodup_cons.2 ⟨fun hin => ?_, ?_⟩
  · obtain ⟨index, hindex, hname⟩ := List.mem_map.1 hin
    have hpromoted := mem_promoted_of_mem_promotedOrder hindex
    obtain ⟨hreach, hne, -⟩ := (mem_promoted (length_pos_of_mem_promoted hpromoted)).1 hpromoted
    -- The root leads to another node, so it has children as well.
    rcases Relation.ReflTransGen.cases_head hreach with heq | ⟨child, hchild, -⟩
    · exact hne heq.symm
    · exact hne (h.eq_of_nameOf_eq (hchildren index hindex) (List.ne_nil_of_mem hchild) hname)
  · refine List.Nodup.map_on ?_ (List.nodup_cons.1 graph.planned_nodup).2
    intro first hfirst second hsecond hname
    exact h.eq_of_nameOf_eq (hchildren first hfirst) (hchildren second hsecond) hname

theorem names_nodup (h : graph.IsTyped) {plan : Plan} (hplan : graph.plan = .ok plan) :
    (plan.tables.map Table.name).Nodup := by
  obtain ⟨-, -, rfl⟩ := plan_eq_ok_iff.1 hplan
  rw [map_name_layout]
  exact h.map_nameOf_planned_nodup

end IsTyped

/-- Walks documents one after the other, each under a name. A document that
fails leaves what it registered before. -/
def walkDocuments (graph : Graph) (documents : List (Json × String)) : Graph :=
  documents.foldl (fun graph document => (walkDocument graph document.1 document.2).1) graph

theorem name_walkDocuments (graph : Graph) (documents : List (Json × String)) :
    (graph.walkDocuments documents).name = graph.name := by
  induction documents generalizing graph with
  | nil => rfl
  | cons document rest ih =>
    have hdocument : (walkDocument graph document.1 document.2).1.name = graph.name := by
      rw [walkDocument_eq_follow]
      exact name_registerAll graph _
    exact (ih _).trans hdocument

theorem IsTyped.walkDocuments (h : graph.IsTyped) (documents : List (Json × String)) :
    (graph.walkDocuments documents).IsTyped := by
  induction documents generalizing graph with
  | nil => exact h
  | cons document rest ih => exact ih (h.walk (by simp) document.1 document.2)

end Graph

end DocumentViews

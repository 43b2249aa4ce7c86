import Mathlib
import DocumentViews.Proofs.Plan.Rooted
import DocumentViews.Proofs.Schema.Relational
import DocumentViews.Proofs.Schema.Typed

/-!
The root of walked documents. After one document every node hangs below the
first one, so all planned tables belong to the data set of the root. The same
holds of documents that are walked one after the other under names of one
table. Documents with roots of their own may share tables, and then the plan of
the first root is closed as long as nothing else is above its tables.
-/

namespace DocumentViews.Graph

open Relation Schema

/-- The first node has the given identifier, and links lead from it to every
other one. -/
structure HangsFrom (graph : Graph) (top : String) : Prop where
  eq_of_head? : ∀ first ∈ graph.ids.head?, first = top
  linked : ∀ id ∈ graph.ids,
    ReflTransGen (fun parent child => (parent, child) ∈ graph.links) top id

variable {graph : Graph}

theorem hangsFrom_empty (name top : String) : (empty name).HangsFrom top :=
  ⟨by simp [ids, empty], by simp [ids, empty]⟩

namespace HangsFrom

variable {top : String}

theorem reaches (h : graph.HangsFrom top) {index : Nat} (hlt : index < graph.nodes.length) :
    graph.Reaches 0 index := by
  have hroot : 0 < graph.nodes.length := Nat.zero_lt_of_lt hlt
  have hfirst : graph.ids.head? = some (graph.idOf 0) := by
    rw [List.head?_eq_getElem?, ids, idOf, node?, List.getElem?_map, List.getElem?_eq_getElem hroot]
    rfl
  have hlinks := h.linked (graph.idOf index) (mem_ids.2 ⟨index, hlt, rfl⟩)
  rw [← h.eq_of_head? _ hfirst] at hlinks
  obtain ⟨other, hreach, hsame⟩ := exists_reaches_of_links hroot hlinks
  exact idOf_injective (hreach.lt hroot) hlt hsame ▸ hreach

/-- What is registered under a root hangs below it, beside what hung there. -/
theorem of_grows {grown : Graph} {root : Node} {rest : List Registration}
    (h : graph.HangsFrom root.id) (hdocument : IsDocument root rest)
    (hgrows : graph.Grows grown (⟨none, root, []⟩ :: rest)) : grown.HangsFrom root.id := by
  have hids : grown.ids = firstArrivals (graph.ids ++ root.id :: rest.map (·.node.id)) :=
    hgrows.ids_eq
  have hlinks : ∀ link, link ∈ grown.links ↔
      link ∈ graph.links ∨ link ∈ rest.filterMap Registration.link? := by
    intro link
    rw [hgrows.links_eq, mem_firstArrivals, List.mem_append]
    rfl
  constructor
  · intro first hfirst
    rw [hids, head?_firstArrivals, List.head?_append] at hfirst
    rcases Option.or_eq_some_iff.1 hfirst with hold | ⟨-, hnew⟩
    · exact h.eq_of_head? first hold
    · exact (Option.some.inj hnew).symm
  · intro id hid
    rw [hids, mem_firstArrivals, List.mem_append, List.mem_cons] at hid
    rcases hid with hold | rfl | hnew
    · exact ReflTransGen.mono (fun _ _ hlink => (hlinks _).2 (Or.inl hlink)) _ _ (h.linked id hold)
    · exact ReflTransGen.refl
    · obtain ⟨registration, hin, rfl⟩ := List.mem_map.1 hnew
      refine links_of_grounded hdocument.grounded (fun other hother => ?_)
        (fun other hother link hlink => ?_) (fun known hknown => ?_) registration hin
      · obtain ⟨table, htable, -⟩ := hdocument.isTable_around other hother
        rw [htable]
        rfl
      · exact (hlinks link).2 (Or.inr (List.mem_filterMap.2 ⟨other, hother, hlink⟩))
      · rw [List.mem_singleton.1 hknown]

/-- A document under the same root hangs below it, too, as far as it comes. -/
theorem walkDocument {label : String} (h : graph.HangsFrom (tableId (Naming.tableName label)))
    (schema : Json) :
    (walkDocument graph schema label).1.HangsFrom (tableId (Naming.tableName label)) := by
  have hgraph : (Schema.walkDocument graph schema label).1 =
      graph.registerAll (traceDocument schema label).registrations := by
    rw [walkDocument_eq_follow, follow]
  rw [hgraph]
  obtain htrace | ⟨parts, hparts, htrace⟩ := registrations_traceDocument schema label
  · rw [htrace]
    exact h
  · rw [htrace]
    have hdocument := hparts.isDocument (Node.isTable_table (Naming.tableName label) (some label))
    have hgrounded : Grounded graph.ids
        (⟨none, .table (Naming.tableName label) (some label), []⟩ :: parts.registrations) :=
      ⟨by simp, hdocument.grounded.mono (by simp)⟩
    rw [← Node.id_table (Naming.tableName label) (some label)] at h ⊢
    exact h.of_grows hdocument (grows_registerAll hgrounded
      (List.forall_mem_cons.2 ⟨hdocument.root_isTable.1, hdocument.isPlain⟩))

theorem walkDocuments {name : String} {documents : List (Json × String)}
    (h : graph.HangsFrom (tableId name))
    (hlabels : ∀ document ∈ documents, Naming.tableName document.2 = name) :
    (graph.walkDocuments documents).HangsFrom (tableId name) := by
  induction documents generalizing graph with
  | nil => exact h
  | cons document rest ih =>
    obtain ⟨hlabel, hrest⟩ := List.forall_mem_cons.1 hlabels
    subst hlabel
    exact ih (h.walkDocument document.1) hrest

/-- Without a cycle the root alone has nothing above it. -/
theorem parents_eq_nil_iff (h : graph.HangsFrom top) (hacyclic : ¬ graph.HasCycle) {index : Nat}
    (hlt : index < graph.nodes.length) : graph.parents index = [] ↔ index = 0 := by
  constructor
  · intro hnone
    rcases ReflTransGen.cases_tail (h.reaches hlt) with heq | ⟨parent, -, hstep⟩
    · exact heq
    · rw [isParent_iff_mem_parents, hnone] at hstep
      exact absurd hstep List.not_mem_nil
  · rintro rfl
    by_contra hparents
    obtain ⟨parent, hparent⟩ := List.exists_mem_of_ne_nil _ hparents
    have hstep := isParent_iff_mem_parents.2 hparent
    exact hacyclic ⟨0, TransGen.tail' (h.reaches hstep.lt_left) hstep⟩

theorem root_ancestry_eq_zero (h : graph.HangsFrom top) (hacyclic : ¬ graph.HasCycle)
    {index : Nat} (hlt : index < graph.nodes.length) : (graph.ancestry index).root = 0 :=
  root_ancestry_eq hacyclic hlt fun _ hreach => h.reaches (hreach.lt_start hlt)

theorem isRootedAt_layout (h : graph.HangsFrom top) (hacyclic : ¬ graph.HasCycle) {root : Node}
    (hroot : graph.node? 0 = some root) : graph.layout.IsRootedAt root :=
  Graph.isRootedAt_layout hacyclic hroot fun _ hindex =>
    h.root_ancestry_eq_zero hacyclic (lt_of_mem_promotedOrder hindex)

end HangsFrom

variable {name : String}

/-- After one document every node is below the root, also when the walk fails
on its way. Without a cycle the root alone has no parents, every ancestry begins
at it, and all tables of the plan belong to its data set. -/
theorem rooted_of_walkDocument {schema : Json} {label : String}
    {result : Except Error (Option Nat)}
    (h : walkDocument (empty name) schema label = (graph, result)) :
    (∀ index < graph.nodes.length, graph.Reaches 0 index) ∧
      (¬ graph.HasCycle →
        (∀ index < graph.nodes.length, graph.parents index = [] ↔ index = 0) ∧
        (∀ index < graph.nodes.length, (graph.ancestry index).root = 0) ∧
        ∀ root, graph.node? 0 = some root →
          ∃ plan, graph.plan = .ok plan ∧ plan.IsRootedAt root) := by
  have hhangs : graph.HangsFrom (tableId (Naming.tableName label)) := by
    have hwalked := (hangsFrom_empty name (tableId (Naming.tableName label))).walkDocument schema
    rw [h] at hwalked
    exact hwalked
  refine ⟨fun index => hhangs.reaches, fun hacyclic => ⟨fun index =>
    hhangs.parents_eq_nil_iff hacyclic, fun index => hhangs.root_ancestry_eq_zero hacyclic,
    fun root hroot => ?_⟩⟩
  have hnil : graph.nodes ≠ [] := List.ne_nil_of_mem (List.mem_of_getElem? hroot)
  exact ⟨graph.layout, plan_of_acyclic hnil hacyclic, hhangs.isRootedAt_layout hacyclic hroot⟩

/-- A document that fails at its last property, behind a table with a column. -/
def tornSchema : Json :=
  .obj [("$schema", .str "x"), ("properties", .obj [
    ("a", .obj [("properties", .obj [("x", .obj [("type", .str "string")])])]),
    ("z", .obj [("type", .str "date")])])]

theorem rooted_of_walkDocument_tornSchema :
    (walkDocument (empty "g") tornSchema "root").2.toOption = none ∧
      (walkDocument (empty "g") tornSchema "root").1.nodes.length = 3 ∧
      (∀ index < (walkDocument (empty "g") tornSchema "root").1.nodes.length,
        (walkDocument (empty "g") tornSchema "root").1.Reaches 0 index) ∧
      ∃ root plan, (walkDocument (empty "g") tornSchema "root").1.node? 0 = some root ∧
        (walkDocument (empty "g") tornSchema "root").1.plan = .ok plan ∧
          plan.IsRootedAt root := by
  have hplan : (walkDocument (empty "g") tornSchema "root").1.plan.toOption.isSome := by
    decide +kernel
  obtain ⟨plan, hplan⟩ := Option.isSome_iff_exists.1 hplan
  obtain ⟨hnil, hacyclic, -⟩ := plan_eq_ok_iff.1 (eq_ok_of_toOption hplan)
  obtain ⟨root, hroot, -⟩ := node?_eq_some (List.length_pos_of_ne_nil hnil)
  obtain ⟨hreaches, hrooted⟩ := rooted_of_walkDocument
    (Prod.mk.eta (p := walkDocument (empty "g") tornSchema "root")).symm
  obtain ⟨-, -, hplanned⟩ := hrooted hacyclic
  obtain ⟨rootedPlan, hplan, hrootedAt⟩ := hplanned root hroot
  exact ⟨by decide +kernel, by decide +kernel, hreaches, root, rootedPlan, hroot, hplan, hrootedAt⟩

namespace IsTyped

/-- Below the root the nodes with children become tables. -/
theorem mem_planned (h : graph.IsTyped) (hacyclic : ¬ graph.HasCycle) {index : Nat}
    (hreach : graph.Reaches 0 index) (hchildren : graph.children index ≠ []) :
    index ∈ graph.planned := by
  obtain ⟨child, hchild⟩ := List.exists_mem_of_ne_nil _ hchildren
  have hlt := IsParent.lt_left hchild
  obtain ⟨node, hnode, -⟩ := node?_eq_some hlt
  by_cases hroot : index = 0
  · exact hroot ▸ List.mem_cons_self
  · apply List.mem_cons_of_mem
    rw [mem_promotedOrder hacyclic, mem_promoted_iff_children_ne_nil (Nat.zero_lt_of_lt hlt)]
    · exact ⟨hreach, hroot, hchildren⟩
    · intro _
      rw [hnode, Option.any_some, Node.isEntity, h.kind_parent hchild hnode]
      rfl

/-- A table that belongs to the data set of the root has the root on top of its
ancestry. -/
theorem root_ancestry_eq_zero (h : graph.IsTyped) (hacyclic : ¬ graph.HasCycle) {index : Nat}
    (hpromoted : index ∈ graph.promoted 0)
    (hentity : (graph.tableAt (graph.promoted 0) index).entity = graph.nameOf 0) :
    (graph.ancestry index).root = 0 := by
  have hroot := length_pos_of_mem_promoted hpromoted
  obtain ⟨hbelow, hne, -⟩ := (mem_promoted hroot).1 hpromoted
  have hlt := lt_of_mem_promoted hroot hpromoted
  obtain ⟨hreach, hnone, -⟩ := root_ancestry hacyclic hlt
  rw [entity_tableAt hacyclic hlt] at hentity
  -- Both have a child on the way to the table, so both are tables and told by their names.
  rcases ReflTransGen.cases_head hreach with heq | ⟨child, hchild, -⟩
  · obtain ⟨parent, hparent⟩ :=
      List.exists_mem_of_ne_nil _ (parents_ne_nil_of_mem_promoted hroot hpromoted)
    rw [heq] at hnone
    exact absurd (isParent_iff_mem_parents.2 hparent) (hnone parent)
  · rcases ReflTransGen.cases_head hbelow with heq | ⟨other, hother, -⟩
    · exact absurd heq.symm hne
    · exact h.eq_of_nameOf_eq (List.ne_nil_of_mem hchild) (List.ne_nil_of_mem hother) hentity

/-- What is above a table of a closed plan is planned itself. -/
theorem mem_planned_of_isClosedAt (h : graph.IsTyped) (hacyclic : ¬ graph.HasCycle) {root : Node}
    (hroot : graph.node? 0 = some root) (hclosed : graph.layout.IsClosedAt root) {index : Nat}
    (hpromoted : index ∈ graph.promoted 0) {above : Nat} (hreach : graph.Reaches above index) :
    above ∈ graph.planned := by
  have hplanned := (mem_promotedOrder hacyclic).2 hpromoted
  have hentity : (graph.tableAt (graph.promoted 0) index).entity = graph.nameOf 0 := by
    rw [nameOf_eq hroot]
    exact hclosed.entity_eq _ (List.mem_cons_of_mem _ (List.mem_map_of_mem hplanned))
  have htop : ∀ parent, ¬ graph.IsParent parent 0 := by
    rw [← h.root_ancestry_eq_zero hacyclic hpromoted hentity]
    exact (root_ancestry hacyclic (lt_of_mem_promotedOrder hplanned)).2.1
  induction hreach using ReflTransGen.head_induction_on with
  | refl => exact List.mem_cons_of_mem _ hplanned
  | @head parent child hstep _ ih =>
    rcases List.mem_cons.1 ih with rfl | hchild
    · exact absurd hstep (htop parent)
    · exact (has_refAt_iff hstep.lt_left).1
        (hclosed.has_parent _ (mem_relationships_layout.2 ⟨child, hchild, parent, hstep, rfl⟩))

theorem isClosedAt_layout_iff (h : graph.IsTyped) (hacyclic : ¬ graph.HasCycle) {root : Node}
    (hroot : graph.node? 0 = some root) : graph.layout.IsClosedAt root ↔
      ∀ index ∈ graph.promoted 0, ∀ above, graph.Reaches above index → graph.Reaches 0 above := by
  constructor
  · intro hclosed index hpromoted above hreach
    rcases List.mem_cons.1 (h.mem_planned_of_isClosedAt hacyclic hroot hclosed hpromoted hreach)
      with rfl | hplanned
    · exact ReflTransGen.refl
    · have hpromoted := mem_promoted_of_mem_promotedOrder hplanned
      exact ((mem_promoted (length_pos_of_mem_promoted hpromoted)).1 hpromoted).1
  · intro hbelow
    refine ⟨fun relationship hin => ?_, fun relationship => has_child_layout, ?_⟩
    · obtain ⟨index, hindex, parent, hstep, rfl⟩ := mem_relationships_layout.1 hin
      have hreach := hbelow index (mem_promoted_of_mem_promotedOrder hindex) parent
        (ReflTransGen.single hstep)
      exact (has_refAt_iff hstep.lt_left).2
        (h.mem_planned hacyclic hreach (List.ne_nil_of_mem hstep))
    · refine (Graph.isRootedAt_layout hacyclic hroot fun index hindex => ?_).entity_eq
      exact root_ancestry_eq hacyclic (lt_of_mem_promotedOrder hindex)
        (hbelow index (mem_promoted_of_mem_promotedOrder hindex))

end IsTyped

/-- Documents under names of one table have one root, and their plan is rooted
and closed. -/
theorem closed_of_common_root {documents : List (Json × String)} {common : String}
    (hlabels : ∀ document ∈ documents, Naming.tableName document.2 = common)
    {plan : Plan} (hplan : ((empty name).walkDocuments documents).plan = .ok plan) :
    ∃ root, ((empty name).walkDocuments documents).node? 0 = some root ∧
      plan.IsRootedAt root ∧ plan.IsClosedAt root := by
  have htyped := (isTyped_empty name).walkDocuments documents
  have hhangs := (hangsFrom_empty name (tableId common)).walkDocuments hlabels
  obtain ⟨hnil, hacyclic, rfl⟩ := plan_eq_ok_iff.1 hplan
  obtain ⟨root, hroot, -⟩ := node?_eq_some (List.length_pos_of_ne_nil hnil)
  refine ⟨root, hroot, hhangs.isRootedAt_layout hacyclic hroot, ?_⟩
  apply (htyped.isClosedAt_layout_iff hacyclic hroot).2
  intro index hpromoted above hreach
  have hlt := lt_of_mem_promoted (List.length_pos_of_ne_nil hnil) hpromoted
  exact hhangs.reaches (hreach.lt_start hlt)

/-- The plan of several documents is closed exactly when all that is above its
tables hangs below the root of the first one. The inner tables of its
relationships are always planned. -/
theorem closed_iff_of_walkDocuments {documents : List (Json × String)}
    (hwalk : (empty name).walkDocuments documents = graph) {plan : Plan}
    (hplan : graph.plan = .ok plan) :
    (∀ relationship ∈ plan.relationships, plan.Has relationship.child) ∧
      ∃ root, graph.node? 0 = some root ∧
        (plan.IsClosedAt root ↔ ∀ index ∈ graph.promoted 0, ∀ above,
          graph.Reaches above index → graph.Reaches 0 above) := by
  have htyped : graph.IsTyped := hwalk ▸ (isTyped_empty name).walkDocuments documents
  obtain ⟨hnil, hacyclic, rfl⟩ := plan_eq_ok_iff.1 hplan
  obtain ⟨root, hroot, -⟩ := node?_eq_some (List.length_pos_of_ne_nil hnil)
  exact ⟨fun relationship => has_child_layout, root, hroot,
    htyped.isClosedAt_layout_iff hacyclic hroot⟩

/-- Two documents with a table in common, each under a root of its own. -/
def twoRoots : List (Json × String) :=
  let schema := Json.obj [("$schema", .str "x"), ("properties", .obj [
    ("a", .obj [("properties", .obj [("x", .obj [("type", .str "string")])])])])]
  [(schema, "root"), (schema, "other")]

theorem closed_iff_of_walkDocuments_twoRoots :
    ∃ plan, ((empty "g").walkDocuments twoRoots).plan = .ok plan ∧
      (∀ relationship ∈ plan.relationships, plan.Has relationship.child) ∧
      ∃ root, ((empty "g").walkDocuments twoRoots).node? 0 = some root ∧
        (plan.IsClosedAt root ↔ ∀ index ∈ ((empty "g").walkDocuments twoRoots).promoted 0,
          ∀ above, ((empty "g").walkDocuments twoRoots).Reaches above index →
            ((empty "g").walkDocuments twoRoots).Reaches 0 above) := by
  have hplan : ((empty "g").walkDocuments twoRoots).plan.toOption.isSome := by decide +kernel
  obtain ⟨plan, hplan⟩ := Option.isSome_iff_exists.1 hplan
  obtain ⟨hchild, hclosed⟩ := closed_iff_of_walkDocuments rfl (eq_ok_of_toOption hplan)
  exact ⟨plan, eq_ok_of_toOption hplan, hchild, hclosed⟩

/-- The table in common is joined to the second root, which is not planned, and
belongs to the data set of the second root. -/
theorem not_closed_twoRoots :
    ∃ root plan, ((empty "g").walkDocuments twoRoots).node? 0 = some root ∧
      ((empty "g").walkDocuments twoRoots).plan = .ok plan ∧
      (∃ relationship ∈ plan.relationships, ¬ plan.Has relationship.parent) ∧
      ∃ table ∈ plan.tables, table.entity ≠ root.name := by
  have hplan : ((empty "g").walkDocuments twoRoots).plan.toOption.any fun plan =>
      decide (((empty "g").walkDocuments twoRoots).nameOf 0 = "roots" ∧
        (∃ relationship ∈ plan.relationships, ¬ plan.Has relationship.parent) ∧
        ∃ table ∈ plan.tables, table.entity ≠ "roots") := by
    decide +kernel
  obtain ⟨plan, hplan, hfound⟩ := (Option.any_eq_true _ _).1 hplan
  obtain ⟨hname, hparent, hentity⟩ := of_decide_eq_true hfound
  obtain ⟨hnil, -, -⟩ := plan_eq_ok_iff.1 (eq_ok_of_toOption hplan)
  obtain ⟨root, hroot, -⟩ := node?_eq_some (List.length_pos_of_ne_nil hnil)
  rw [← hname, nameOf_eq hroot] at hentity
  exact ⟨root, plan, hroot, eq_ok_of_toOption hplan, hparent, hentity⟩

end DocumentViews.Graph

import Mathlib
import DocumentViews.Proofs.Graph.Identity
import DocumentViews.Proofs.Schema.Registered

/-!
The graph of a document. Its first node is the root table, all other nodes stand
under tables, and every node can be reached from the root. A link leads from one
identifier to another when a registration says so. What follows from the
registrations is stated for all graphs that represent them.
-/

namespace DocumentViews

open Relation

/-- A node of the kind that walks register for tables. -/
def Node.IsTable (node : Node) : Prop :=
  node.IsPlain ∧ node.kind = .entity

theorem Node.name_table (name : String) (key : Option String) : (table name key).name = name := rfl

theorem Node.name_field (name : String) (key : Option String) (type : ScalarType) :
    (field name key type).name = name := rfl

theorem Node.isTable_table (name : String) (key : Option String) : (table name key).IsTable :=
  ⟨rfl, rfl⟩

theorem eq_ok_of_toOption {ε α : Type} {result : Except ε α} {value : α}
    (h : result.toOption = some value) : result = .ok value := by
  cases result with
  | error error => simp [Except.toOption] at h
  | ok other => rw [Option.some.inj h]

theorem eq_mk_of_snd_eq {α β : Type} {pair : α × β} {value : β} (h : pair.2 = value) :
    pair = (pair.1, value) :=
  Prod.ext rfl h

namespace Schema

/-- The registrations of a document. The root comes first and everything else
stands under a table that was registered before. -/
structure IsDocument (root : Node) (rest : List Registration) : Prop where
  root_isTable : root.IsTable
  isPlain : ∀ registration ∈ rest, registration.node.IsPlain
  isTable_around : ∀ registration ∈ rest, ∃ table, registration.around = some table ∧ table.IsTable
  grounded : Grounded [root.id] rest
  /-- What stands under a registered node stands behind its place. -/
  placed : ∀ registration ∈ rest, ∃ outer ∈ (⟨none, root, []⟩ :: rest : List Registration),
    registration.around = some outer.node ∧
      registration.place = outer.place ++ registration.node.key.toList

variable {root : Node} {rest : List Registration}

theorem IsDocument.isTable_of_around (h : IsDocument root rest) {registration : Registration}
    (hin : registration ∈ rest) {table : Node} (haround : registration.around = some table) :
    table.IsTable := by
  obtain ⟨other, hother, htable⟩ := h.isTable_around registration hin
  rw [haround] at hother
  rw [Option.some.inj hother]
  exact htable

/-- What a node stands under was registered at the place that it leads on from. -/
theorem IsDocument.exists_above (h : IsDocument root rest) {registration : Registration}
    (hin : registration ∈ rest) {table : Node} (haround : registration.around = some table) :
    ∃ above ∈ (⟨none, root, []⟩ :: rest : List Registration), above.node = table ∧
      registration.place = above.place ++ registration.node.key.toList := by
  obtain ⟨above, habove, hsame, hplace⟩ := h.placed registration hin
  rw [haround] at hsame
  exact ⟨above, habove, (Option.some.inj hsame).symm, hplace⟩

theorem IsDocument.id_eq (h : IsDocument root rest) {registration : Registration}
    (hin : registration ∈ rest) : registration.node.id =
      nodeIdentifier registration.node.kind registration.node.name [] :=
  (h.isPlain registration hin).id_eq

theorem Trace.IsUnder.isPlain {around : Option Node} {place : List String} {trace : Trace}
    (h : trace.IsUnder around place) :
    ∀ registration ∈ trace.registrations, registration.node.IsPlain := by
  induction h with
  | fault => simp [Trace.fault]
  | nothing => simp [Trace.nothing]
  | column table name key type place =>
    intro registration hin
    rw [List.mem_singleton.1 hin]
    exact Node.isPlain_field _ key type
  | table around name key place parts hparts ih =>
    intro registration hin
    rcases List.mem_cons.1 hin with heq | hin
    · rw [heq]
      exact Node.isPlain_table _ key
    · exact ih registration hin
  | andThen table place first later hfirst hlater ihFirst ihLater =>
    intro registration hin
    rcases Trace.mem_andThen hin with hin | hin
    · exact ihFirst registration hin
    · exact ihLater registration hin

theorem Trace.IsUnder.isTable_around {table : Node} (htable : table.IsTable)
    {place : List String} {trace : Trace} (h : trace.IsUnder (some table) place) :
    ∀ registration ∈ trace.registrations,
      ∃ table, registration.around = some table ∧ table.IsTable := by
  generalize haround : some table = around at h
  induction h generalizing table with
  | fault => simp [Trace.fault]
  | nothing => simp [Trace.nothing]
  | column outer name key type place =>
    intro registration hin
    rw [List.mem_singleton.1 hin]
    exact ⟨table, haround.symm, htable⟩
  | table around name key place parts hparts ih =>
    intro registration hin
    rcases List.mem_cons.1 hin with heq | hin
    · rw [heq]
      exact ⟨table, haround.symm, htable⟩
    · exact ih (Node.isTable_table _ key) rfl registration hin
  | andThen outer place first later hfirst hlater ihFirst ihLater =>
    intro registration hin
    rcases Trace.mem_andThen hin with hin | hin
    · exact ihFirst htable haround registration hin
    · exact ihLater htable haround registration hin

/-- The key of a registration leads on from the place of the one around it. -/
theorem Trace.IsUnder.placed {outer : Registration} {trace : Trace}
    (h : trace.IsUnder (some outer.node) outer.place) {all : List Registration}
    (houter : outer ∈ all) (hsub : trace.registrations ⊆ all) :
    ∀ registration ∈ trace.registrations, ∃ above ∈ all,
      registration.around = some above.node ∧
        registration.place = above.place ++ registration.node.key.toList := by
  generalize haround : some outer.node = around at h
  generalize hplace : outer.place = place at h
  induction h generalizing outer with
  | fault => simp [Trace.fault]
  | nothing => simp [Trace.nothing]
  | column table name key type place =>
    intro registration hin
    rw [List.mem_singleton.1 hin]
    exact ⟨outer, houter, haround.symm, congrArg (· ++ key.toList) hplace.symm⟩
  | table around name key place parts hparts ih =>
    obtain ⟨hself, hinside⟩ := List.cons_subset.1 hsub
    intro registration hin
    rcases List.mem_cons.1 hin with heq | hin
    · rw [heq]
      exact ⟨outer, houter, haround.symm, congrArg (· ++ key.toList) hplace.symm⟩
    · exact ih hself hinside rfl rfl registration hin
  | andThen table place first later hfirst hlater ihFirst ihLater =>
    intro registration hin
    rcases Trace.registrations_andThen first later with heq | heq
    · rw [heq] at hsub hin
      exact ihFirst houter hsub haround hplace registration hin
    · rw [heq] at hsub hin
      obtain ⟨hsubFirst, hsubLater⟩ := List.append_subset.1 hsub
      rcases List.mem_append.1 hin with hin | hin
      · exact ihFirst houter hsubFirst haround hplace registration hin
      · exact ihLater houter hsubLater haround hplace registration hin

/-- A schema registers its root table first and the rest inside, or nothing at
all. -/
theorem registrations_traceDocument (schema : Json) (name : String) :
    (traceDocument schema name).registrations = [] ∨
      ∃ parts : Trace, parts.IsUnder (some (.table (Naming.tableName name) (some name))) [] ∧
        (traceDocument schema name).registrations =
          ⟨none, .table (Naming.tableName name) (some name), []⟩ :: parts.registrations := by
  have hobject : ∀ properties,
      (traceObject none properties name (some name) []).registrations = [] ∨
        ∃ parts : Trace, parts.IsUnder (some (.table (Naming.tableName name) (some name))) [] ∧
          (traceObject none properties name (some name) []).registrations =
            ⟨none, .table (Naming.tableName name) (some name), []⟩ :: parts.registrations := by
    intro properties
    rw [traceObject]
    split
    · exact Or.inl rfl
    · exact Or.inr ⟨_, isUnder_traceProperties _ properties [], rfl⟩
  rw [traceDocument, traceFragment_eq]
  split
  · exact Or.inl rfl
  · cases classify schema with
    | error rejection => exact Or.inl rfl
    | ok kind =>
      cases kind with
      | top object => exact hobject object.properties
      | nested object => exact hobject object.properties
      | array | scalar | boundedNumber => exact Or.inl rfl

theorem Trace.IsUnder.isDocument {root : Node} (hroot : root.IsTable) {parts : Trace}
    (h : parts.IsUnder (some root) []) : IsDocument root parts.registrations where
  root_isTable := hroot
  isPlain := h.isPlain
  isTable_around := h.isTable_around hroot
  grounded := by
    apply h.grounded
    intro table hin
    rw [← Option.some.inj hin]
    exact List.mem_singleton.2 rfl
  placed := by
    have hroot : parts.IsUnder (some (⟨none, root, []⟩ : Registration).node) [] := h
    exact hroot.placed List.mem_cons_self (List.subset_cons_self _ _)

theorem Registration.link?_eq_some_iff {registration : Registration} {parent child : String} :
    registration.link? = some (parent, child) ↔ ∃ table, registration.around = some table ∧
      table.id = parent ∧ registration.node.id = child ∧ parent ≠ child := by
  unfold Registration.link?
  cases registration.around with
  | none => simp
  | some table =>
    rw [Option.bind_some]
    split
    · next hloop =>
      constructor
      · intro h
        simp at h
      · intro hsome
        obtain ⟨other, hother, rfl, rfl, hne⟩ := hsome
        rw [← Option.some.inj hother] at hne
        exact absurd hloop hne
    · next hne =>
      constructor
      · intro h
        obtain ⟨rfl, rfl⟩ := Prod.mk.inj (Option.some.inj h)
        exact ⟨table, rfl, rfl, rfl, hne⟩
      · intro hsome
        obtain ⟨other, hother, rfl, rfl, -⟩ := hsome
        rw [Option.some.inj hother]

end Schema

namespace Graph

open Schema

/-- The graph of a document with the given root and registrations under it. -/
def ofDocument (name : String) (root : Node) (rest : List Registration) : Graph :=
  (empty name).registerAll (⟨none, root, []⟩ :: rest)

/-- A graph holds the nodes and links of a document, each in order of first
arrival, and of the nodes with one identifier the first. -/
structure Represents (graph : Graph) (root : Node) (rest : List Registration) : Prop
    extends IsDocument root rest where
  indexOf?_root : graph.indexOf? root.id = some 0
  ids_eq : graph.ids = firstArrivals (root.id :: rest.map (·.node.id))
  links_eq : graph.links = firstArrivals (rest.filterMap Registration.link?)
  find?_eq : ∀ id, graph.nodes.find? (·.id == id) =
    (root :: rest.map Registration.node).find? (·.id == id)

variable {graph : Graph} {root : Node} {rest : List Registration}

theorem represents_ofDocument (name : String) (h : IsDocument root rest) :
    (ofDocument name root rest).Represents root rest where
  toIsDocument := h
  indexOf?_root := by
    have hfirst : ((empty name).register ⟨none, root, []⟩).indexOf? root.id = some 0 :=
      indexOf?_add (empty name) root none _
    exact indexOf?_registerAll_of_eq_some hfirst rest
  ids_eq := ids_registerAll (empty name) (⟨none, root, []⟩ :: rest)
  links_eq := by
    have hgrounded : Grounded (empty name).ids (⟨none, root, []⟩ :: rest) :=
      ⟨by simp, h.grounded⟩
    exact links_registerAll hgrounded
  find?_eq := find?_registerAll (empty name) (⟨none, root, []⟩ :: rest)

namespace Represents

theorem length_pos (h : graph.Represents root rest) : 0 < graph.nodes.length :=
  (indexOf?_eq_some_iff.1 h.indexOf?_root).1

theorem idOf_zero (h : graph.Represents root rest) : graph.idOf 0 = root.id :=
  (indexOf?_eq_some_iff.1 h.indexOf?_root).2

theorem mem_links (h : graph.Represents root rest) {parent child : String} :
    (parent, child) ∈ graph.links ↔ ∃ registration ∈ rest,
      ∃ table, registration.around = some table ∧ table.id = parent ∧
        registration.node.id = child ∧ parent ≠ child := by
  simp only [h.links_eq, mem_firstArrivals, List.mem_filterMap, Registration.link?_eq_some_iff]

/-- Everything that was registered has a number. -/
theorem exists_index (h : graph.Represents root rest) {id : String}
    (hid : id ∈ root.id :: rest.map (·.node.id)) :
    ∃ index < graph.nodes.length, graph.idOf index = id := by
  rw [← mem_firstArrivals, ← h.ids_eq] at hid
  exact mem_ids.1 hid

/-- At every number stands the first node that was registered with its
identifier. -/
theorem node?_eq (h : graph.Represents root rest) {index : Nat}
    (hlt : index < graph.nodes.length) : graph.node? index =
      (root :: rest.map Registration.node).find? (·.id == graph.idOf index) := by
  rw [node?_indexOf? (indexOf?_eq_some_iff.2 ⟨hlt, rfl⟩)]
  exact h.find?_eq (graph.idOf index)

theorem isPlain_of_node? (h : graph.Represents root rest) {index : Nat} {node : Node}
    (hnode : graph.node? index = some node) : node.IsPlain := by
  have hlt : index < graph.nodes.length := (List.getElem?_eq_some_iff.1 hnode).1
  rw [h.node?_eq hlt] at hnode
  rcases List.mem_cons.1 (List.mem_of_find?_eq_some hnode) with heq | hin
  · rw [heq]
    exact h.root_isTable.1
  · obtain ⟨registration, hregistration, rfl⟩ := List.mem_map.1 hin
    exact h.isPlain registration hregistration

/-- Only tables have children. -/
theorem isTable_of_isParent (h : graph.Represents root rest) {i j : Nat} {node : Node}
    (hparent : graph.IsParent i j) (hnode : graph.node? i = some node) : node.IsTable := by
  obtain ⟨registration, hin, table, haround, hid, -⟩ := h.mem_links.1 hparent.mem_links
  have htable := h.isTable_of_around hin haround
  have hplain := h.isPlain_of_node? hnode
  have hsame : node.id = table.id := by
    rw [hid, idOf, hnode]
    rfl
  exact ⟨hplain, ((hplain.id_eq_iff htable.1).1 hsame).1.trans htable.2⟩

end Represents

/-- Everything that is registered hangs below what is known. -/
theorem links_of_grounded {start : String} {known : List String} {registrations : List Registration}
    {links : List (String × String)} (hgrounded : Grounded known registrations)
    (haround : ∀ registration ∈ registrations, registration.around.isSome)
    (hlinks : ∀ registration ∈ registrations, ∀ link ∈ registration.link?, link ∈ links)
    (hknown : ∀ id ∈ known, ReflTransGen (fun parent child => (parent, child) ∈ links) start id) :
    ∀ registration ∈ registrations,
      ReflTransGen (fun parent child => (parent, child) ∈ links) start registration.node.id := by
  induction registrations generalizing known with
  | nil => simp
  | cons registration rest ih =>
    have hfirst : ReflTransGen (fun parent child => (parent, child) ∈ links) start
        registration.node.id := by
      obtain ⟨table, htable⟩ := Option.isSome_iff_exists.1 (haround registration List.mem_cons_self)
      have habove := hknown table.id (hgrounded.1 table htable)
      by_cases hloop : table.id = registration.node.id
      · exact hloop ▸ habove
      · apply habove.tail
        apply hlinks registration List.mem_cons_self
        exact Registration.link?_eq_some_iff.2 ⟨table, htable, rfl, rfl, hloop⟩
    intro other hother
    rcases List.mem_cons.1 hother with rfl | hother
    · exact hfirst
    · refine ih hgrounded.2 (fun next hnext => haround next (List.mem_cons_of_mem _ hnext))
        (fun next hnext => hlinks next (List.mem_cons_of_mem _ hnext)) ?_ other hother
      intro id hid
      rcases List.mem_cons.1 hid with rfl | hid
      · exact hfirst
      · exact hknown id hid

/-- Every node can be reached from the root. -/
theorem Represents.reaches (h : graph.Represents root rest) {index : Nat}
    (hlt : index < graph.nodes.length) : graph.Reaches 0 index := by
  have hid : graph.idOf index ∈ root.id :: rest.map (·.node.id) := by
    rw [← mem_firstArrivals, ← h.ids_eq]
    exact mem_ids.2 ⟨index, hlt, rfl⟩
  have hlinks : ReflTransGen (fun parent child => (parent, child) ∈ graph.links)
      (graph.idOf 0) (graph.idOf index) := by
    rw [h.idOf_zero]
    rcases List.mem_cons.1 hid with heq | hin
    · rw [heq]
    · obtain ⟨registration, hregistration, heq⟩ := List.mem_map.1 hin
      rw [← heq]
      refine links_of_grounded h.grounded ?_ ?_ ?_ registration hregistration
      · intro other hother
        obtain ⟨table, htable, -⟩ := h.isTable_around other hother
        rw [htable]
        rfl
      · intro other hother link hlink
        rw [h.links_eq, mem_firstArrivals]
        exact List.mem_filterMap.2 ⟨other, hother, hlink⟩
      · intro id hknown
        rw [List.mem_singleton.1 hknown]
  obtain ⟨other, hreach, hsame⟩ := exists_reaches_of_links h.length_pos hlinks
  have heq := idOf_injective (hreach.lt h.length_pos) hlt hsame
  exact heq ▸ hreach

/-- A walk that registers anything leaves a graph that represents what it
registered, also when it fails behind that. -/
theorem represents_of_walkDocument {name : String} {schema : Json} {label : String}
    {result : Except Error (Option Nat)}
    (h : walkDocument (empty name) schema label = (graph, result)) (hnil : graph.nodes ≠ []) :
    ∃ rest, (traceDocument schema label).registrations =
        ⟨none, .table (Naming.tableName label) (some label), []⟩ :: rest ∧
      graph.Represents (.table (Naming.tableName label) (some label)) rest := by
  have hgraph : (empty name).registerAll (traceDocument schema label).registrations = graph := by
    rw [walkDocument_eq_follow] at h
    exact congrArg Prod.fst h
  obtain htrace | ⟨parts, hparts, htrace⟩ := registrations_traceDocument schema label
  · rw [htrace] at hgraph
    rw [← hgraph] at hnil
    exact absurd rfl hnil
  · refine ⟨parts.registrations, htrace, ?_⟩
    rw [← hgraph, htrace]
    exact represents_ofDocument name (hparts.isDocument (Node.isTable_table _ _))

/-- A walk that returns a node has registered it. -/
theorem nodes_ne_nil_of_walkDocument {name : String} {schema : Json} {label : String}
    {index : Nat} (h : walkDocument (empty name) schema label = (graph, .ok (some index))) :
    graph.nodes ≠ [] := by
  rw [walkDocument_eq_follow, follow] at h
  obtain ⟨hgraph, hresult⟩ := Prod.mk.inj h
  rw [hgraph] at hresult
  intro hnil
  have hnone : ∀ id, graph.indexOf? id = none := by
    intro id
    rw [indexOf?, hnil]
    rfl
  cases htrace : (traceDocument schema label).result with
  | error error => simp [htrace, Except.map] at hresult
  | ok node =>
    cases node with
    | none => simp [htrace, Except.map] at hresult
    | some node => simp [htrace, Except.map, hnone] at hresult

end Graph

end DocumentViews

import Mathlib
import DocumentViews.Proofs.Listing
import DocumentViews.Proofs.Schema.Registration

/-!
What a graph holds after registrations: the identifiers that were registered
and the pairs that were linked, each in order of first arrival, and under each
identifier the node that arrived first.
-/

namespace DocumentViews.Schema

/-- The identifiers that a registration links. A node is not linked to itself. -/
def Registration.link? (registration : Registration) : Option (String × String) :=
  registration.around.bind fun table =>
    if table.id = registration.node.id then none else some (table.id, registration.node.id)

/-- Every registration stands under a node that is known or was registered
before it. -/
def Grounded (known : List String) : List Registration → Prop
  | [] => True
  | registration :: rest =>
    (∀ table ∈ registration.around, table.id ∈ known) ∧
      Grounded (registration.node.id :: known) rest

theorem Grounded.mono {known more : List String} {registrations : List Registration}
    (h : Grounded known registrations) (hsub : known ⊆ more) : Grounded more registrations := by
  induction registrations generalizing known more with
  | nil => trivial
  | cons registration rest ih =>
    refine ⟨fun table htable => hsub (h.1 table htable), ih h.2 ?_⟩
    exact List.cons_subset_cons _ hsub

theorem Grounded.append {known : List String} {first later : List Registration}
    (hfirst : Grounded known first) (hlater : Grounded known later) :
    Grounded known (first ++ later) := by
  induction first generalizing known with
  | nil => exact hlater
  | cons registration rest ih =>
    refine ⟨hfirst.1, ih hfirst.2 (hlater.mono ?_)⟩
    exact List.subset_cons_self _ _

theorem Grounded.mem_of_around {known : List String} {registrations : List Registration}
    (h : Grounded known registrations) {registration : Registration}
    (hin : registration ∈ registrations) {table : Node}
    (haround : registration.around = some table) :
    table.id ∈ known ++ registrations.map (·.node.id) := by
  induction registrations generalizing known with
  | nil => simp at hin
  | cons first rest ih =>
    rcases List.mem_cons.1 hin with rfl | hin
    · exact List.mem_append_left _ (h.1 table haround)
    · have := ih h.2 hin
      simp only [List.mem_append, List.mem_cons, List.map_cons] at this ⊢
      tauto

/-- What is inside a table comes after the table. -/
theorem Trace.IsUnder.grounded {around : Option Node} {place : List String} {trace : Trace}
    (h : trace.IsUnder around place) {known : List String}
    (haround : ∀ table ∈ around, table.id ∈ known) : Grounded known trace.registrations := by
  induction h generalizing known with
  | fault => trivial
  | nothing => trivial
  | column table name key type place => exact ⟨haround, trivial⟩
  | table around name key place parts hparts ih =>
    refine ⟨haround, ih ?_⟩
    intro table htable
    rw [← Option.some.inj htable]
    exact List.mem_cons_self
  | andThen table place first later hfirst hlater ihFirst ihLater =>
    rcases Trace.registrations_andThen first later with heq | heq
    · rw [heq]
      exact ihFirst haround
    · rw [heq]
      exact (ihFirst haround).append (ihLater haround)

end DocumentViews.Schema

namespace DocumentViews.Graph

open Schema

variable {graph : Graph}

theorem ids_register (graph : Graph) (registration : Registration) :
    (graph.register registration).ids = firstArrivals (graph.ids ++ [registration.node.id]) := by
  rw [firstArrivals_concat, firstArrivals_eq_self graph.nodup_ids]
  exact ids_add graph registration.node _ _

theorem links_register {registration : Registration} (h : graph.Knows registration.around) :
    (graph.register registration).links =
      firstArrivals (graph.links ++ registration.link?.toList) := by
  obtain ⟨around, node, place⟩ := registration
  cases around with
  | none =>
    rw [register, Option.bind_none, links_add_none]
    change graph.links = firstArrivals (graph.links ++ [])
    rw [List.append_nil, firstArrivals_eq_self graph.nodup_links]
  | some table =>
    obtain ⟨index, hindex⟩ := Knows.exists_index h
    simp only [register, Registration.link?, Option.bind_some, hindex]
    rw [links_add_some hindex]
    by_cases hloop : table.id = node.id
    · rw [if_pos (Or.inr hloop), if_pos hloop, Option.toList_none, List.append_nil,
        firstArrivals_eq_self graph.nodup_links]
    · rw [if_neg hloop, Option.toList_some, firstArrivals_concat,
        firstArrivals_eq_self graph.nodup_links]
      by_cases hold : (table.id, node.id) ∈ graph.links
      · rw [if_pos hold, if_pos (Or.inl hold)]
      · rw [if_neg hold, if_neg (not_or.2 ⟨hold, hloop⟩)]

theorem ids_registerAll (graph : Graph) (registrations : List Registration) :
    (graph.registerAll registrations).ids =
      firstArrivals (graph.ids ++ registrations.map (·.node.id)) := by
  induction registrations generalizing graph with
  | nil =>
    rw [List.map_nil, List.append_nil, firstArrivals_eq_self graph.nodup_ids]
    rfl
  | cons registration rest ih =>
    rw [registerAll_cons, ih, ids_register, ← firstArrivals_append, List.append_assoc]
    rfl

theorem links_registerAll {registrations : List Registration}
    (h : Grounded graph.ids registrations) :
    (graph.registerAll registrations).links =
      firstArrivals (graph.links ++ registrations.filterMap Registration.link?) := by
  induction registrations generalizing graph with
  | nil =>
    rw [List.filterMap_nil, List.append_nil, firstArrivals_eq_self graph.nodup_links]
    rfl
  | cons registration rest ih =>
    have hrest : Grounded (graph.register registration).ids rest := by
      apply h.2.mono
      intro id hid
      rw [ids_register, mem_firstArrivals]
      simpa [or_comm] using hid
    rw [registerAll_cons, ih hrest, links_register h.1, ← firstArrivals_append, List.append_assoc,
      List.filterMap_cons]
    cases registration.link? with
    | none => rfl
    | some link => rfl

/-- Under an identifier stands the first node that was registered with it. -/
theorem find?_registerAll (graph : Graph) (registrations : List Registration) (id : String) :
    (graph.registerAll registrations).nodes.find? (·.id == id) =
      (graph.nodes ++ registrations.map Registration.node).find? (·.id == id) := by
  induction registrations generalizing graph with
  | nil =>
    rw [List.map_nil, List.append_nil]
    rfl
  | cons registration rest ih =>
    have hnodes : (graph.register registration).nodes = _ :=
      (nodes_add graph registration.node _ _).trans (nodes_addNode graph registration.node)
    rw [registerAll_cons, ih, hnodes, List.map_cons]
    split
    · next hknown =>
      -- A later node of a known identifier is never the first one.
      obtain ⟨other, hother, hsame⟩ := List.mem_map.1 hknown
      rw [List.find?_append, List.find?_append, List.find?_cons]
      by_cases hid : registration.node.id = id
      · have hsome : (graph.nodes.find? (·.id == id)).isSome := by
          rw [List.find?_isSome]
          exact ⟨other, hother, by simp [hsame, hid]⟩
        obtain ⟨node, hnode⟩ := Option.isSome_iff_exists.1 hsome
        simp [hnode]
      · have hother : (registration.node.id == id) = false := by simpa using hid
        simp [hother]
    · rw [List.append_assoc]
      rfl

end DocumentViews.Graph

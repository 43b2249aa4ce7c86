import Mathlib
import DocumentViews.Proofs.Graph.ShortestPath
import DocumentViews.Proofs.Members
import DocumentViews.Proofs.Schema.Trace

/-!
The order of registrations. In a fragment whose objects have their members in
ascending order, a node is registered before all that stands inside it, and
what stands at a property before all that stands at later ones. So the places
of the registrations ascend.
-/

namespace DocumentViews

/-- All objects inside a value have their members in ascending order. -/
inductive Json.IsOrdered : Json → Prop
  | null : IsOrdered .null
  | bool (value : Bool) : IsOrdered (.bool value)
  | num (value : Number) : IsOrdered (.num value)
  | str (value : String) : IsOrdered (.str value)
  | arr (items : List Json) (hitems : ∀ item ∈ items, IsOrdered item) : IsOrdered (.arr items)
  | obj (members : Json.Object) (hascending : members.Ascending)
    (hmembers : ∀ entry ∈ members, IsOrdered entry.2) : IsOrdered (.obj members)

/-- The members of an object ascend, and so do those of all objects inside. -/
structure Json.Object.IsOrdered (members : Json.Object) : Prop where
  ascending : members.Ascending
  inside : ∀ entry ∈ members, entry.2.IsOrdered

theorem Json.isOrdered_obj_iff {members : Json.Object} :
    (Json.obj members).IsOrdered ↔ members.IsOrdered := by
  constructor
  · intro h
    cases h with
    | obj _ hascending hmembers => exact ⟨hascending, hmembers⟩
  · intro h
    exact .obj members h.ascending h.inside

theorem Json.Object.IsOrdered.find? {members : Json.Object} (h : members.IsOrdered) {key : String}
    {value : Json} (hfind : members.find? key = some value) : value.IsOrdered :=
  h.inside (key, value) (Members.mem_of_find?_eq_some hfind)

namespace Schema

/-- The parts of an ordered fragment are ordered. -/
theorem isOrdered_of_classify {fragment : Json} (hordered : fragment.IsOrdered) {kind : Kind}
    (h : classify fragment = .ok kind) :
    (∀ object, kind.object? = some object → object.properties.IsOrdered) ∧
      ∀ array, kind = .array array → array.items.IsOrdered := by
  cases fragment with
  | obj members =>
    have hmembers := Json.isOrdered_obj_iff.1 hordered
    rw [classify] at h
    unfold classifyMembers at h
    split at h
    · next properties hfind =>
      obtain rfl := Except.ok.inj h
      refine ⟨fun object hobject => ?_, fun array harray => ?_⟩
      · rw [object?_kindOfObject hobject]
        exact Json.isOrdered_obj_iff.1 (hmembers.find? hfind)
      · exact absurd harray (kindOfObject_ne_array _ _ _)
    · simp at h
    · simp only at h
      split at h
      · split at h
        · next items hfind =>
          obtain rfl := Except.ok.inj h
          refine ⟨fun object hobject => by simp [Kind.object?] at hobject, fun array harray => ?_⟩
          rw [← Kind.array.inj harray]
          exact hmembers.find? hfind
        · simp at h
      · split at h
        · obtain rfl := Except.ok.inj h
          exact ⟨fun object hobject => by simp [Kind.object?] at hobject,
            fun array harray => by simp at harray⟩
        · simp at h
  | _ => simp [classify] at h

theorem le_of_isPrefix {first second : List String} (h : first <+: second) : first ≤ second := by
  obtain ⟨rest, rfl⟩ := h
  exact not_lt.1 (List.not_lt.2 List.le_append_left)

/-- What stands at an earlier key comes before what stands at a later one. -/
theorem lt_of_prefix_keys {place first second : List String} {key other : String}
    (hlt : key < other) (hfirst : place ++ [key] <+: first) (hsecond : place ++ [other] <+: second) :
    first < second := by
  obtain ⟨firstRest, rfl⟩ := hfirst
  obtain ⟨secondRest, rfl⟩ := hsecond
  refine append_lt_append (by simp) ?_ firstRest secondRest
  induction place with
  | nil => simpa [List.cons_lt_cons_iff] using hlt
  | cons step place ih => exact List.cons_lt_cons_iff.2 (Or.inr ⟨rfl, ih⟩)

/-- The registrations of a trace stand at a place or inside, and their places
ascend. -/
structure Trace.IsPreorder (trace : Trace) (place : List String) : Prop where
  inside : ∀ registration ∈ trace.registrations, place <+: registration.place
  ascends : (trace.registrations.map Registration.place).Pairwise (· ≤ ·)

theorem Trace.isPreorder_fault (error : Error) (place : List String) :
    (fault error).IsPreorder place :=
  ⟨by simp [fault], List.Pairwise.nil⟩

theorem Trace.isPreorder_nothing (place : List String) : nothing.IsPreorder place :=
  ⟨by simp [nothing], List.Pairwise.nil⟩

/-- A node is registered before what stands inside it. -/
theorem Trace.IsPreorder.of_parts {parts : Trace} {place : List String}
    (h : parts.IsPreorder place) (around : Option Node) (node : Node) :
    (Trace.inside ⟨around, node, place⟩ parts).IsPreorder place where
  inside := by
    intro registration hin
    rcases List.mem_cons.1 hin with rfl | hin
    · exact List.prefix_rfl
    · exact h.inside registration hin
  ascends := by
    rw [Trace.inside, List.map_cons, List.pairwise_cons]
    refine ⟨fun other hother => ?_, h.ascends⟩
    obtain ⟨part, hpart, rfl⟩ := List.mem_map.1 hother
    exact le_of_isPrefix (h.inside part hpart)

theorem isPreorder_traceColumn (around : Option Node) (name : String) (key : Option String)
    (type : ScalarType) (place : List String) (label : String) :
    (traceColumn around name key type place label).IsPreorder place := by
  cases around with
  | none => exact Trace.isPreorder_fault _ place
  | some table => exact (Trace.isPreorder_nothing place).of_parts _ _

/-- The registrations of properties stand at the keys of the properties, and
their places ascend. -/
structure Trace.IsPreorderAt (trace : Trace) (place : List String) (keys : List String) : Prop where
  inside : ∀ registration ∈ trace.registrations,
    ∃ key ∈ keys, place ++ [key] <+: registration.place
  ascends : (trace.registrations.map Registration.place).Pairwise (· ≤ ·)

theorem Trace.IsPreorderAt.isPreorder {trace : Trace} {place keys : List String}
    (h : trace.IsPreorderAt place keys) : trace.IsPreorder place where
  inside := by
    intro registration hin
    obtain ⟨key, -, hprefix⟩ := h.inside registration hin
    exact (List.prefix_append place [key]).trans hprefix
  ascends := h.ascends

theorem Trace.IsPreorderAt.skip {trace : Trace} {place keys : List String}
    (h : trace.IsPreorderAt place keys) (key : String) : trace.IsPreorderAt place (key :: keys) where
  inside := by
    intro registration hin
    obtain ⟨other, hother, hprefix⟩ := h.inside registration hin
    exact ⟨other, List.mem_cons_of_mem _ hother, hprefix⟩
  ascends := h.ascends

theorem Trace.IsPreorder.andThen {first later : Trace} {place keys : List String} {key : String}
    (hfirst : first.IsPreorder (place ++ [key])) (hlater : later.IsPreorderAt place keys)
    (hkeys : ∀ other ∈ keys, key < other) :
    (first.andThen later).IsPreorderAt place (key :: keys) where
  inside := by
    intro registration hin
    rcases Trace.mem_andThen hin with hin | hin
    · exact ⟨key, List.mem_cons_self, hfirst.inside registration hin⟩
    · exact (hlater.skip key).inside registration hin
  ascends := by
    rcases Trace.registrations_andThen first later with heq | heq
    · rw [heq]
      exact hfirst.ascends
    · rw [heq, List.map_append, List.pairwise_append]
      refine ⟨hfirst.ascends, hlater.ascends, ?_⟩
      intro before hbefore after hafter
      obtain ⟨early, hearly, rfl⟩ := List.mem_map.1 hbefore
      obtain ⟨late, hlate, rfl⟩ := List.mem_map.1 hafter
      obtain ⟨other, hother, hprefix⟩ := hlater.inside late hlate
      exact le_of_lt (lt_of_prefix_keys (hkeys other hother) (hfirst.inside early hearly) hprefix)

mutual

theorem isPreorder_traceFragment (around : Option Node) {fragment : Json}
    (hordered : fragment.IsOrdered) (name : String) (key : Option String) (place : List String) :
    (traceFragment around fragment name key place).IsPreorder place := by
  rw [traceFragment_eq]
  split
  · exact Trace.isPreorder_fault _ place
  · cases hkind : classify fragment with
    | error rejection => exact Trace.isPreorder_fault _ place
    | ok kind =>
      have hsize := sizeOf_of_classify hkind
      have hparts := isOrdered_of_classify hordered hkind
      cases kind with
      | top object =>
        have := hsize.1 object rfl
        exact isPreorder_traceObject around (hparts.1 object rfl) name key place
      | nested object =>
        have := hsize.1 object rfl
        exact isPreorder_traceObject around (hparts.1 object rfl) name key place
      | array array =>
        have := hsize.2 array rfl
        cases around with
        | none => exact Trace.isPreorder_fault _ place
        | some outer =>
          have hitems := isPreorder_traceFragment (some (.table (Naming.tableName name) key))
            (hparts.2 array rfl) (array.itemTitle?.getD name) none place
          exact hitems.of_parts _ _
      | scalar type => exact isPreorder_traceColumn around name key type place _
      | boundedNumber => exact isPreorder_traceColumn around name key .number place _
termination_by 2 * sizeOf fragment

theorem isPreorder_traceObject (around : Option Node) {properties : Json.Object}
    (hordered : properties.IsOrdered) (name : String) (key : Option String)
    (place : List String) : (traceObject around properties name key place).IsPreorder place := by
  rw [traceObject]
  split
  · exact Trace.isPreorder_nothing place
  · exact (isPreorderAt_traceProperties _ hordered place).isPreorder.of_parts _ _
termination_by 2 * sizeOf properties + 1

theorem isPreorderAt_traceProperties (table : Node) {properties : Json.Object}
    (hordered : properties.IsOrdered) (place : List String) :
    (traceProperties table properties place).IsPreorderAt place properties.keys := by
  match properties, hordered with
  | [], _ =>
    rw [traceProperties]
    exact ⟨by simp [Trace.nothing], List.Pairwise.nil⟩
  | (key, property) :: rest, hordered =>
    obtain ⟨hkeys, hrest⟩ := Members.ascending_cons.1 hordered.ascending
    have hlater := isPreorderAt_traceProperties table
      ⟨hrest, fun other hother => hordered.inside other (List.mem_cons_of_mem _ hother)⟩ place
    rw [traceProperties]
    split
    · exact hlater.skip key
    · have hproperty := isPreorder_traceFragment (some table)
        (hordered.inside (key, property) List.mem_cons_self) key (some key) (place ++ [key])
      exact hproperty.andThen hlater hkeys
termination_by 2 * sizeOf properties

end

end Schema

end DocumentViews

import Mathlib
import DocumentViews.Proofs.Schema.Acceptance
import DocumentViews.Proofs.Schema.Document

/-!
The fragments of a schema, from the outside in: the schema itself, the
properties of its objects and the items of its arrays, each with the property
keys that lead to it and with the number of arrays behind the last of them. When
a walk ends well, what it registers holds the registrations of every fragment.
-/

namespace DocumentViews.Schema

/-- Whether a trace is not cut off. -/
def Trace.Completes (trace : Trace) : Prop :=
  ∃ node, trace.result = .ok node

namespace Trace

theorem not_completes_fault (error : Error) : ¬ (fault error).Completes := by
  intro h
  obtain ⟨node, hnode⟩ := h
  nomatch hnode

theorem completes_inside_iff {registration : Registration} {parts : Trace} :
    (inside registration parts).Completes ↔ parts.Completes :=
  exists_map_eq_ok_iff

theorem completes_andThen_iff {first later : Trace} :
    (first.andThen later).Completes ↔ first.Completes ∧ later.Completes := by
  obtain ⟨registrations, result⟩ := first
  cases result with
  | error error => simp [Completes, andThen]
  | ok node => simp [Completes, andThen]

theorem Completes.registrations_andThen {first : Trace} (h : first.Completes) (later : Trace) :
    (first.andThen later).registrations = first.registrations ++ later.registrations := by
  obtain ⟨node, hnode⟩ := h
  simp [andThen, hnode]

end Trace

/-- A fragment of a schema and how it is come to. -/
structure Site where
  fragment : Json
  name : String
  /-- The property key of the fragment, which items do not have. -/
  key : Option String
  around : Option Node
  /-- The property keys that lead to the fragment. -/
  place : List String
  /-- How many arrays the fragment is inside of behind the last property key. -/
  levels : Nat

namespace Site

/-- The table of a compound fragment. -/
def table (site : Site) : Node :=
  .table (Naming.tableName site.name) site.key

/-- A property of an object. -/
def property (site : Site) (key : String) (fragment : Json) : Site :=
  ⟨fragment, key, some key, some site.table, site.place ++ [key], 0⟩

/-- The items of an array. -/
def items (site : Site) (array : ArraySchema) : Site :=
  ⟨array.items, array.itemTitle?.getD site.name, none, some site.table, site.place,
    site.levels + 1⟩

/-- The fragments of a schema. Properties of type null do not count. -/
inductive IsIn (schema : Json) (label : String) : Site → Prop
  | whole : IsIn schema label ⟨schema, label, some label, none, [], 0⟩
  | property {site : Site} {kind : Kind} {object : ObjectSchema} {key : String} {fragment : Json}
    (hsite : IsIn schema label site) (hkind : classify site.fragment = .ok kind)
    (hobject : kind.object? = some object) (hin : (key, fragment) ∈ object.properties)
    (htype : fragment.text? "type" ≠ some "null") : IsIn schema label (site.property key fragment)
  | items {site : Site} {array : ArraySchema} (hsite : IsIn schema label site)
    (hkind : classify site.fragment = .ok (.array array)) : IsIn schema label (site.items array)

/-- The type of a scalar fragment. -/
def scalarType? (site : Site) : Option ScalarType :=
  (classify site.fragment).toOption.bind Kind.scalarType?

/-- The registrations of a fragment where it stands. -/
def trace (site : Site) : Trace :=
  traceFragment site.around site.fragment site.name site.key site.place

/-- The registration of the table of a compound fragment. -/
def registration (site : Site) : Registration :=
  ⟨site.around, site.table, site.place⟩

variable {site : Site} {schema : Json} {label : String}

theorem trace_eq (h : site.trace.Completes) {kind : Kind}
    (hkind : classify site.fragment = .ok kind) :
    site.trace = traceKind site.around site.name site.key site.place kind := by
  unfold trace at h ⊢
  rw [traceFragment_eq] at h ⊢
  split
  · next hvoid =>
    rw [if_pos hvoid] at h
    exact absurd h (Trace.not_completes_fault _)
  · rw [hkind]

theorem traceProperties_part {table : Node} {properties : Json.Object} {place : List String}
    (h : (traceProperties table properties place).Completes) {key : String} {fragment : Json}
    (hin : (key, fragment) ∈ properties) (htype : fragment.text? "type" ≠ some "null") :
    (traceFragment (some table) fragment key (some key) (place ++ [key])).Completes ∧
      (traceFragment (some table) fragment key (some key) (place ++ [key])).registrations ⊆
        (traceProperties table properties place).registrations := by
  induction properties with
  | nil => simp at hin
  | cons entry rest ih =>
    obtain ⟨first, part⟩ := entry
    rw [traceProperties] at h ⊢
    split
    · next hnull =>
      rw [if_pos hnull] at h
      rcases List.mem_cons.1 hin with heq | hin
      · obtain ⟨rfl, rfl⟩ := Prod.mk.inj heq
        exact absurd hnull htype
      · exact ih h hin
    · next hpart =>
      rw [if_neg hpart, Trace.completes_andThen_iff] at h
      obtain ⟨hfirst, hrest⟩ := h
      rw [hfirst.registrations_andThen]
      rcases List.mem_cons.1 hin with heq | hin
      · obtain ⟨rfl, rfl⟩ := Prod.mk.inj heq
        exact ⟨hfirst, List.subset_append_left _ _⟩
      · obtain ⟨hcompletes, hsubset⟩ := ih hrest hin
        exact ⟨hcompletes, List.subset_append_of_subset_right _ hsubset⟩

/-- An object with a property registers its table and all of the property. -/
theorem trace_property (h : site.trace.Completes) {kind : Kind} {object : ObjectSchema}
    {key : String} {fragment : Json} (hkind : classify site.fragment = .ok kind)
    (hobject : kind.object? = some object) (hin : (key, fragment) ∈ object.properties)
    (htype : fragment.text? "type" ≠ some "null") :
    (site.property key fragment).trace.Completes ∧
      site.registration :: (site.property key fragment).trace.registrations ⊆
        site.trace.registrations := by
  have htrace : site.trace =
      traceObject site.around object.properties site.name site.key site.place := by
    rw [trace_eq h hkind]
    cases kind with
    | top other => rw [← Option.some.inj hobject]; rfl
    | nested other => rw [← Option.some.inj hobject]; rfl
    | array | scalar | boundedNumber => simp [Kind.object?] at hobject
  have hnil : object.properties.isEmpty = false := by
    simpa using List.ne_nil_of_mem hin
  rw [traceObject, if_neg (by simp [hnil])] at htrace
  rw [htrace, Trace.completes_inside_iff] at h
  obtain ⟨hcompletes, hsubset⟩ := traceProperties_part h hin htype
  rw [htrace]
  exact ⟨hcompletes, List.cons_subset_cons _ hsubset⟩

/-- An array registers its table and all of its items. -/
theorem trace_items (h : site.trace.Completes) {array : ArraySchema}
    (hkind : classify site.fragment = .ok (.array array)) :
    (site.items array).trace.Completes ∧
      site.registration :: (site.items array).trace.registrations ⊆ site.trace.registrations := by
  have htrace := trace_eq h hkind
  cases haround : site.around with
  | none =>
    rw [htrace, haround] at h
    exact absurd h (Trace.not_completes_fault _)
  | some outer =>
    have harray : site.trace = .inside site.registration (site.items array).trace := by
      rw [htrace, haround, registration, haround]
      rfl
    rw [harray, Trace.completes_inside_iff] at h
    rw [harray]
    exact ⟨h, List.Subset.refl _⟩

theorem IsIn.trace_subset (hsite : site.IsIn schema label)
    (h : (traceDocument schema label).Completes) :
    site.trace.Completes ∧
      site.trace.registrations ⊆ (traceDocument schema label).registrations := by
  induction hsite with
  | whole => exact ⟨h, List.Subset.refl _⟩
  | property _ hkind hobject hin htype ih =>
    obtain ⟨hcompletes, hsubset⟩ := trace_property ih.1 hkind hobject hin htype
    exact ⟨hcompletes, List.Subset.trans (List.cons_subset.1 hsubset).2 ih.2⟩
  | items _ hkind ih =>
    obtain ⟨hcompletes, hsubset⟩ := trace_items ih.1 hkind
    exact ⟨hcompletes, List.Subset.trans (List.cons_subset.1 hsubset).2 ih.2⟩

theorem IsIn.key_eq_none (hsite : site.IsIn schema label) (hlevels : 1 ≤ site.levels) :
    site.key = none := by
  cases hsite with
  | whole => simp at hlevels
  | property => simp [Site.property] at hlevels
  | items => rfl

/-- A fragment that stands right behind a property key is named by it. -/
theorem IsIn.name_eq (hsite : site.IsIn schema label) (hlevels : site.levels = 0)
    {front : List String} {key : String} (hplace : site.place = front ++ [key]) :
    site.name = key := by
  cases hsite with
  | whole => simp at hplace
  | property => exact List.singleton_inj.1 (List.append_inj' hplace rfl).2
  | items => simp [Site.items] at hlevels

/-- A scalar fragment is registered as a column under the table around it. -/
theorem IsIn.mem_registrations (hsite : site.IsIn schema label)
    (h : (traceDocument schema label).Completes) {type : ScalarType}
    (htype : site.scalarType? = some type) :
    ∃ table, site.around = some table ∧
      ∃ registration ∈ (traceDocument schema label).registrations,
        registration.around = some table ∧ registration.node.kind = .component type ∧
          registration.node.name = Naming.columnName site.name ∧
            registration.node.key = site.key ∧ registration.place = site.place := by
  obtain ⟨hcompletes, hsubset⟩ := hsite.trace_subset h
  obtain ⟨kind, hkind, hscalar⟩ := Option.bind_eq_some_iff.1 htype
  have hclassify : classify site.fragment = .ok kind := by
    cases hresult : classify site.fragment with
    | error rejection => simp [hresult, Except.toOption] at hkind
    | ok other =>
      rw [hresult] at hkind
      rw [Option.some.inj hkind]
  have htrace := trace_eq hcompletes hclassify
  have hcolumn : ∃ around, ∃ word, site.trace =
      traceColumn around site.name site.key type site.place word ∧ around = site.around := by
    rw [htrace]
    cases kind with
    | scalar other =>
      rw [← Option.some.inj hscalar]
      exact ⟨_, _, rfl, rfl⟩
    | boundedNumber =>
      rw [← Option.some.inj hscalar]
      exact ⟨_, _, rfl, rfl⟩
    | top | nested | array => simp [Kind.scalarType?] at hscalar
  obtain ⟨around, word, hcolumn, rfl⟩ := hcolumn
  cases haround : site.around with
  | none =>
    rw [hcolumn, haround] at hcompletes
    exact absurd hcompletes (Trace.not_completes_fault _)
  | some table =>
    rw [hcolumn, haround] at hsubset
    refine ⟨table, rfl, _, hsubset List.mem_cons_self, ?_⟩
    exact ⟨rfl, rfl, Node.name_field .., rfl, rfl⟩

/-- Where a property key leads further in, the table of its fragment is
registered. -/
theorem IsIn.exists_table (hsite : site.IsIn schema label)
    (h : (traceDocument schema label).Completes) {front back : List String} {key : String}
    (hplace : site.place = front ++ key :: back) (hinside : back ≠ [] ∨ 1 ≤ site.levels) :
    ∃ registration ∈ (traceDocument schema label).registrations,
      registration.node.kind = .entity ∧ registration.node.name = Naming.tableName key ∧
        registration.place = front ++ [key] := by
  -- A fragment that stands right behind the key and has parts registers the table.
  have hhere : ∀ {outer : Site}, outer.IsIn schema label → outer.levels = 0 →
      outer.place = front ++ [key] →
      outer.registration ∈ (traceDocument schema label).registrations →
      ∃ registration ∈ (traceDocument schema label).registrations,
        registration.node.kind = .entity ∧ registration.node.name = Naming.tableName key ∧
          registration.place = front ++ [key] := by
    intro outer houter hlevels houterPlace hin
    refine ⟨outer.registration, hin, rfl, ?_, houterPlace⟩
    rw [← houter.name_eq hlevels houterPlace]
    exact Node.name_table ..
  induction hsite generalizing back with
  | whole => simp at hplace
  | @property outer kind object other fragment houter hkind hobject hin htype ih =>
    have hback : back ≠ [] := hinside.resolve_right (by simp [Site.property])
    obtain ⟨inner, last, rfl⟩ := (List.eq_nil_or_concat back).resolve_left hback
    have hkeys : outer.place ++ [other] = (front ++ key :: inner) ++ [last] := by
      simpa [Site.property] using hplace
    obtain ⟨hinner, -⟩ := List.append_inj' hkeys rfl
    by_cases hfurther : inner ≠ [] ∨ 1 ≤ outer.levels
    · exact ih hinner hfurther
    · obtain ⟨rfl, hlevels⟩ : inner = [] ∧ outer.levels = 0 := by
        simp only [not_or, not_not] at hfurther
        exact ⟨hfurther.1, by omega⟩
      obtain ⟨hcompletes, hsubset⟩ := houter.trace_subset h
      obtain ⟨-, hparts⟩ := trace_property hcompletes hkind hobject hin htype
      exact hhere houter hlevels hinner (hsubset (hparts List.mem_cons_self))
  | @items outer array houter hkind ih =>
    by_cases hfurther : back ≠ [] ∨ 1 ≤ outer.levels
    · exact ih hplace hfurther
    · obtain ⟨rfl, hlevels⟩ : back = [] ∧ outer.levels = 0 := by
        simp only [not_or, not_not] at hfurther
        exact ⟨hfurther.1, by omega⟩
      obtain ⟨hcompletes, hsubset⟩ := houter.trace_subset h
      obtain ⟨-, hparts⟩ := trace_items hcompletes hkind
      exact hhere houter hlevels hplace (hsubset (hparts List.mem_cons_self))

end Site

end DocumentViews.Schema

import Mathlib
import DocumentViews.Proofs.Members
import DocumentViews.Schema.Error

/-!
The grammar of schema fragments, told by the members of objects alone. A
fragment is accepted when it is a bounded number, an object whose properties
are accepted, an array whose items are, or a scalar, and only an object is
accepted without a table around it. The classification finds one of eight
shapes, which are apart and leave nothing out.
-/

namespace DocumentViews

theorem Members.exists_find?_of_mem {α : Type} {members : Members α} {key : String} {value : α}
    (h : (key, value) ∈ members) : ∃ found, members.find? key = some found := by
  induction members with
  | nil => simp at h
  | cons entry rest ih =>
    obtain ⟨k, v⟩ := entry
    rw [find?]
    by_cases heq : key = k
    · exact ⟨v, if_pos heq⟩
    · rw [if_neg heq]
      refine ih ((List.mem_cons.1 h).resolve_left fun hsame => heq ?_)
      exact (Prod.mk.inj hsame).1

namespace Schema

/-- A number or an integer, by its type. -/
def IsNumber (value : Json) : Prop :=
  value.text? "type" = some "number" ∨ value.text? "type" = some "integer"

/-- The members of an object that stands for a number between two bounds: the
numbers `min` and `max` are its properties, and two names are required. -/
structure IsBounded (members : Json.Object) : Prop where
  unnamed : members.find? "$schema" = none
  bounds : ∃ properties min max, members.find? "properties" = some (.obj properties) ∧
    properties.Perm [("max", max), ("min", min)] ∧ IsNumber min ∧ IsNumber max
  required : ∃ first second, members.find? "required" = some (.arr [first, second])

/-- The fragments that a walk accepts, inside a table or on their own. -/
inductive Accepts : (inside : Bool) → Json → Prop
  | bounded {members : Json.Object} (h : IsBounded members) : Accepts true (.obj members)
  | table {members properties : Json.Object} (inside : Bool) (hbounded : ¬ IsBounded members)
    (hproperties : members.find? "properties" = some (.obj properties))
    (hparts : ∀ entry ∈ properties, entry.2.text? "type" ≠ some "null" → Accepts true entry.2) :
    Accepts inside (.obj members)
  | array {members : Json.Object} {items : Json} (hnone : members.find? "properties" = none)
    (htype : (Json.obj members).text? "type" = some "array")
    (hitems : members.find? "items" = some items) (hpart : Accepts true items) :
    Accepts true (.obj members)
  | scalar {members : Json.Object} {type : String} (hnone : members.find? "properties" = none)
    (htype : (Json.obj members).text? "type" = some type)
    (hscalar : type ∈ ["integer", "string", "boolean", "number"]) : Accepts true (.obj members)

/-- What the members of a fragment tell of its kind. -/
inductive Shape : Json → Except Rejection Kind → Prop
  | notAnObject {fragment : Json} (h : ∀ members, fragment ≠ .obj members) :
    Shape fragment (.error (.notAnObject fragment))
  | propertiesNotAnObject {members : Json.Object} {value : Json}
    (hproperties : members.find? "properties" = some value)
    (h : ∀ properties, value ≠ .obj properties) :
    Shape (.obj members) (.error .propertiesNotAnObject)
  | bounded {members : Json.Object} (h : IsBounded members) :
    Shape (.obj members) (.ok .boundedNumber)
  | table {members : Json.Object} {object : ObjectSchema} {kind : Kind}
    (hbounded : ¬ IsBounded members)
    (hproperties : members.find? "properties" = some (.obj object.properties))
    (hkind : kind = .top object ∨ kind = .nested object) : Shape (.obj members) (.ok kind)
  | array {members : Json.Object} {items : Json} (hnone : members.find? "properties" = none)
    (htype : (Json.obj members).text? "type" = some "array")
    (hitems : members.find? "items" = some items) : Shape (.obj members) (.ok (.array ⟨items⟩))
  | noItems {members : Json.Object} (hnone : members.find? "properties" = none)
    (htype : (Json.obj members).text? "type" = some "array")
    (hitems : members.find? "items" = none) : Shape (.obj members) (.error .noItems)
  | scalar {members : Json.Object} (type : ScalarType)
    (hnone : members.find? "properties" = none)
    (htype : (Json.obj members).text? "type" = some type.name) :
    Shape (.obj members) (.ok (.scalar type))
  | unsupported {members : Json.Object} (hnone : members.find? "properties" = none)
    (h : ∀ type ∈ ["array", "integer", "string", "boolean", "number"],
      (Json.obj members).text? "type" ≠ some type) :
    Shape (.obj members) (.error (.unsupported (members.find? "type")))

variable {members properties : Json.Object} {fragment : Json}

theorem isNumeric_iff {value : Json} : isNumeric value = true ↔ IsNumber value := by
  simp only [isNumeric, IsNumber, Bool.or_eq_true, decide_eq_true_eq]

/-- Two properties with different keys are all of two. -/
theorem perm_of_find? {min max : Json} (hlength : properties.length = 2)
    (hmin : properties.find? "min" = some min) (hmax : properties.find? "max" = some max) :
    properties.Perm [("max", max), ("min", min)] := by
  have hnodup : [("max", max), ("min", min)].Nodup := by simp
  have hsub : [("max", max), ("min", min)] ⊆ properties := by
    simp only [List.cons_subset, List.nil_subset, and_true]
    exact ⟨Members.mem_of_find?_eq_some hmax, Members.mem_of_find?_eq_some hmin⟩
  exact ((hnodup.subperm hsub).perm_of_length_le (by simp [hlength])).symm

theorem find?_of_perm {min max : Json} (h : properties.Perm [("max", max), ("min", min)]) :
    properties.find? "min" = some min ∧ properties.find? "max" = some max := by
  have hfind : ∀ key value, (key, value) ∈ [("max", max), ("min", min)] →
      ∃ found, properties.find? key = some found ∧
        (key, found) ∈ [("max", max), ("min", min)] := by
    intro key value hentry
    obtain ⟨found, hfound⟩ := Members.exists_find?_of_mem (h.mem_iff.2 hentry)
    exact ⟨found, hfound, h.mem_iff.1 (Members.mem_of_find?_eq_some hfound)⟩
  obtain ⟨low, hlow, hmin⟩ := hfind "min" min (by simp)
  obtain ⟨high, hhigh, hmax⟩ := hfind "max" max (by simp)
  have hlowEq : low = min := by simpa using hmin
  have hhighEq : high = max := by simpa using hmax
  exact ⟨hlowEq ▸ hlow, hhighEq ▸ hhigh⟩

theorem isBoundedNumber_iff {object : ObjectSchema} :
    object.isBoundedNumber = true ↔
      (∃ min max, object.properties.Perm [("max", max), ("min", min)] ∧
        IsNumber min ∧ IsNumber max) ∧
      ∃ first second, object.required = some [first, second] := by
  simp only [ObjectSchema.isBoundedNumber, Bool.and_eq_true, Option.any_eq_true, beq_iff_eq,
    isNumeric_iff]
  constructor
  · rintro ⟨⟨⟨hlength, min, hmin, hlow⟩, max, hmax, hhigh⟩, required, hrequired, htwo⟩
    obtain ⟨first, second, rfl⟩ := List.length_eq_two.1 htwo
    exact ⟨⟨min, max, perm_of_find? hlength hmin hmax, hlow, hhigh⟩, first, second, hrequired⟩
  · rintro ⟨⟨min, max, hperm, hlow, hhigh⟩, first, second, hrequired⟩
    obtain ⟨hmin, hmax⟩ := find?_of_perm hperm
    exact ⟨⟨⟨hperm.length_eq, min, hmin, hlow⟩, max, hmax, hhigh⟩, _, hrequired, rfl⟩

theorem isBounded_iff (hproperties : members.find? "properties" = some (.obj properties)) :
    IsBounded members ↔ members.contains "$schema" = false ∧
      ObjectSchema.isBoundedNumber
        ⟨properties, (members.find? "required").bind Json.asArray?⟩ = true := by
  rw [isBoundedNumber_iff, Members.contains, Option.isSome_eq_false_iff, Option.isNone_iff_eq_none]
  constructor
  · rintro ⟨hunnamed, ⟨found, min, max, hfound, hbounds⟩, first, second, hrequired⟩
    obtain rfl : properties = found := by simpa [hproperties] using hfound
    exact ⟨hunnamed, ⟨min, max, hbounds⟩, first, second, by simp [hrequired, Json.asArray?]⟩
  · rintro ⟨hunnamed, ⟨min, max, hbounds⟩, first, second, hrequired⟩
    refine ⟨hunnamed, ⟨properties, min, max, hproperties, hbounds⟩, first, second, ?_⟩
    obtain ⟨value, hvalue, hitems⟩ := Option.bind_eq_some_iff.1 hrequired
    cases value with
    | arr items => rw [hvalue, Option.some.inj hitems]
    | _ => simp [Json.asArray?] at hitems

/-- An object with properties is a bounded number or a table, as its members
say. -/
theorem shape_kindOfObject (hproperties : members.find? "properties" = some (.obj properties)) :
    Shape (.obj members) (.ok (kindOfObject members
      ⟨properties, (members.find? "required").bind Json.asArray?⟩)) := by
  have hbounded := isBounded_iff hproperties
  unfold kindOfObject
  split
  · next hnamed =>
    refine .table (fun h => ?_) hproperties (Or.inl rfl)
    exact Bool.noConfusion (hnamed.symm.trans (hbounded.1 h).1)
  · next hnamed =>
    split
    · next hnumber => exact .bounded (hbounded.2 ⟨by simpa using hnamed, hnumber⟩)
    · next hnumber => exact .table (fun h => hnumber (hbounded.1 h).2) hproperties (Or.inr rfl)

theorem ofName?_eq_none_iff {type : String} : ScalarType.ofName? type = none ↔
    type ∉ ["integer", "string", "boolean", "number"] := by
  rw [ScalarType.ofName?, List.find?_eq_none]
  simp [ScalarType.name, eq_comm]

/-- Without properties the type decides. -/
theorem classifyMembers_of_none (hnone : members.find? "properties" = none) :
    classifyMembers members =
      if (Json.obj members).text? "type" = some "array" then
        match members.find? "items" with
        | some items => .ok (.array ⟨items⟩)
        | none => .error .noItems
      else
        match ((Json.obj members).text? "type").bind ScalarType.ofName? with
        | some type => .ok (.scalar type)
        | none => .error (.unsupported (members.find? "type")) := by
  rw [classifyMembers, hnone]
  rfl

theorem shape_of_none (hnone : members.find? "properties" = none) :
    Shape (.obj members) (classifyMembers members) := by
  rw [classifyMembers_of_none hnone]
  split
  · next htype =>
    split
    · next items hitems => exact .array hnone htype hitems
    · next hitems => exact .noItems hnone htype hitems
  · next htype =>
    split
    · next type hscalar =>
      obtain ⟨name, hname, hscalar⟩ := Option.bind_eq_some_iff.1 hscalar
      exact .scalar type hnone (ScalarType.ofName?_eq_some_iff.1 hscalar ▸ hname)
    · next hscalar =>
      refine .unsupported hnone fun type hin heq => ?_
      rw [heq, Option.bind_some, ofName?_eq_none_iff] at hscalar
      rcases List.mem_cons.1 hin with rfl | hin
      · exact htype heq
      · exact hscalar hin

theorem shape_classify (fragment : Json) : Shape fragment (classify fragment) := by
  cases fragment with
  | obj members =>
    rw [classify]
    cases hproperties : Members.find? members "properties" with
    | none => exact shape_of_none hproperties
    | some value =>
      rw [classifyMembers, hproperties]
      cases value with
      | obj properties => exact shape_kindOfObject hproperties
      | _ => exact .propertiesNotAnObject hproperties fun properties heq => by simp at heq
  | _ => exact .notAnObject fun members heq => by simp at heq

/-- The properties of an object are accepted, except those of type null. -/
def AcceptsParts (properties : Json.Object) : Prop :=
  ∀ entry ∈ properties, entry.2.text? "type" ≠ some "null" → Accepts true entry.2

/-- What it takes for a fragment of a known kind to be accepted. -/
def AcceptsKind (inside : Bool) : Kind → Prop
  | .top object => AcceptsParts object.properties
  | .nested object => AcceptsParts object.properties
  | .array array => inside = true ∧ Accepts true array.items
  | .scalar _ => inside = true
  | .boundedNumber => inside = true

theorem scalarType_name_mem (type : ScalarType) :
    type.name ∈ ["integer", "string", "boolean", "number"] := by
  cases type <;> decide

/-- An array is no scalar. -/
theorem text?_ne_array {type : String}
    (hscalar : type ∈ ["integer", "string", "boolean", "number"])
    (htype : fragment.text? "type" = some type) : fragment.text? "type" ≠ some "array" := by
  intro harray
  rw [Option.some.inj (htype.symm.trans harray)] at hscalar
  simp at hscalar

theorem IsBounded.find?_properties (h : IsBounded members) :
    ∃ properties, members.find? "properties" = some (.obj properties) := by
  obtain ⟨properties, min, max, hproperties, -⟩ := h.bounds
  exact ⟨properties, hproperties⟩

/-- Without properties only an array or a scalar is accepted, inside a table. -/
theorem Accepts.of_none {inside : Bool} (h : Accepts inside (.obj members))
    (hnone : members.find? "properties" = none) :
    inside = true ∧
      (((Json.obj members).text? "type" = some "array" ∧
          ∃ items, members.find? "items" = some items ∧ Accepts true items) ∨
        ∃ type ∈ ["integer", "string", "boolean", "number"],
          (Json.obj members).text? "type" = some type) := by
  cases h with
  | bounded h =>
    obtain ⟨properties, hproperties⟩ := h.find?_properties
    rw [hnone] at hproperties
    nomatch hproperties
  | table _ hbounded hproperties hparts =>
    rw [hnone] at hproperties
    nomatch hproperties
  | array _ htype hitems hpart => exact ⟨rfl, Or.inl ⟨htype, _, hitems, hpart⟩⟩
  | scalar _ htype hscalar => exact ⟨rfl, Or.inr ⟨_, hscalar, htype⟩⟩

theorem Accepts.of_array {inside : Bool} (h : Accepts inside (.obj members))
    (hnone : members.find? "properties" = none)
    (htype : (Json.obj members).text? "type" = some "array") :
    inside = true ∧ ∃ items, members.find? "items" = some items ∧ Accepts true items := by
  obtain ⟨hinside, ⟨-, hitems⟩ | ⟨type, hscalar, hfound⟩⟩ := h.of_none hnone
  · exact ⟨hinside, hitems⟩
  · exact absurd htype (text?_ne_array hscalar hfound)

/-- With properties only a bounded number or a table is accepted. -/
theorem Accepts.of_some {inside : Bool} {value : Json} (h : Accepts inside (.obj members))
    (hsome : members.find? "properties" = some value) :
    (IsBounded members ∧ inside = true) ∨
      (¬ IsBounded members ∧ ∃ properties, value = .obj properties ∧ AcceptsParts properties) := by
  cases h with
  | bounded h => exact Or.inl ⟨h, rfl⟩
  | table _ hbounded hproperties hparts =>
    rw [hsome] at hproperties
    exact Or.inr ⟨hbounded, _, Option.some.inj hproperties, hparts⟩
  | array hnone htype hitems hpart =>
    rw [hsome] at hnone
    nomatch hnone
  | scalar hnone htype hscalar =>
    rw [hsome] at hnone
    nomatch hnone

theorem Accepts.exists_obj {inside : Bool} (h : Accepts inside fragment) :
    ∃ members, fragment = .obj members := by
  cases h with
  | _ => exact ⟨_, rfl⟩

/-- What a fragment is accepted for is said by its kind. -/
theorem accepts_iff (inside : Bool) (fragment : Json) :
    Accepts inside fragment ↔ ∃ kind, classify fragment = .ok kind ∧ AcceptsKind inside kind := by
  have hshape := shape_classify fragment
  generalize classify fragment = result at hshape ⊢
  have hkind : ∀ kind, (∃ found, (.ok kind : Except Rejection Kind) = .ok found ∧
      AcceptsKind inside found) ↔ AcceptsKind inside kind := by
    intro kind
    simp
  cases hshape with
  | notAnObject hother =>
    refine iff_of_false (fun h => ?_) (by simp)
    obtain ⟨members, heq⟩ := h.exists_obj
    exact hother members heq
  | propertiesNotAnObject hproperties hother =>
    refine iff_of_false (fun h => ?_) (by simp)
    rcases h.of_some hproperties with ⟨hbounded, -⟩ | ⟨-, properties, heq, -⟩
    · obtain ⟨properties, hfound⟩ := hbounded.find?_properties
      exact hother properties (Option.some.inj (hproperties.symm.trans hfound))
    · exact hother properties heq
  | bounded hbounded =>
    rw [hkind]
    obtain ⟨properties, hproperties⟩ := hbounded.find?_properties
    constructor
    · intro h
      rcases h.of_some hproperties with ⟨-, hinside⟩ | ⟨hnot, -⟩
      · exact hinside
      · exact absurd hbounded hnot
    · rintro (rfl : inside = true)
      exact .bounded hbounded
  | @table members object kind hbounded hproperties hobject =>
    have hparts : AcceptsKind inside kind ↔ AcceptsParts object.properties := by
      rcases hobject with rfl | rfl <;> rfl
    rw [hkind, hparts]
    constructor
    · intro h
      rcases h.of_some hproperties with ⟨hyes, -⟩ | ⟨-, properties, heq, hparts⟩
      · exact absurd hyes hbounded
      · rw [Json.obj.inj heq]
        exact hparts
    · exact .table inside hbounded hproperties
  | array hnone htype hitems =>
    rw [hkind]
    constructor
    · intro h
      obtain ⟨hinside, items, hfound, hpart⟩ := h.of_array hnone htype
      obtain rfl := Option.some.inj (hitems.symm.trans hfound)
      exact ⟨hinside, hpart⟩
    · rintro ⟨rfl, hpart⟩
      exact .array hnone htype hitems hpart
  | noItems hnone htype hitems =>
    refine iff_of_false (fun h => ?_) (by simp)
    obtain ⟨-, items, hfound, -⟩ := h.of_array hnone htype
    rw [hitems] at hfound
    nomatch hfound
  | scalar type hnone htype =>
    rw [hkind]
    constructor
    · intro h
      exact (h.of_none hnone).1
    · rintro (rfl : inside = true)
      exact .scalar hnone htype (scalarType_name_mem type)
  | unsupported hnone hother =>
    refine iff_of_false (fun h => ?_) (by simp)
    obtain ⟨-, ⟨htype, -⟩ | ⟨type, hscalar, htype⟩⟩ := h.of_none hnone
    · exact hother "array" List.mem_cons_self htype
    · exact hother type (List.mem_cons_of_mem _ hscalar) htype

end Schema

end DocumentViews

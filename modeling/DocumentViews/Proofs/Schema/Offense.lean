import Mathlib
import DocumentViews.Proofs.Schema.Grammar

/-!
The offenses against the grammar of schema fragments. A fragment offends by
itself when it is empty, of no kind, or of a kind that needs a table around it
and has none. The first offense in a fragment is its own, or else the first one
in its parts, where all parts before are accepted. What the first offense is
can be told from the kind of the fragment.
-/

namespace DocumentViews

/-- Null, false, zero and values without content. -/
inductive Json.IsNothing : Json → Prop
  | null : IsNothing .null
  | bool : IsNothing (.bool false)
  | int : IsNothing (.num (.int 0))
  | float (value : Float) (h : (value == 0) = true) : IsNothing (.num (.float value))
  | str : IsNothing (.str "")
  | arr : IsNothing (.arr [])
  | obj : IsNothing (.obj [])

theorem Json.isVoid_iff {value : Json} : value.isVoid = true ↔ value.IsNothing := by
  constructor
  · intro h
    match value, h with
    | .null, _ => exact .null
    | .bool false, _ => exact .bool
    | .num (.int number), h =>
      obtain rfl : number = 0 := eq_of_beq h
      exact .int
    | .num (.float number), h => exact .float number h
    | .str text, h =>
      obtain rfl : text = "" := eq_of_beq h
      exact .str
    | .arr [], _ => exact .arr
    | .obj [], _ => exact .obj
  · intro h
    cases h with
    | float value hzero => exact hzero
    | _ => rfl

namespace Schema

/-- What is wrong with a fragment by itself, whatever its parts are. -/
inductive Offends (name : String) : (inside : Bool) → Json → Error → Prop
  | void {fragment : Json} (inside : Bool) (h : fragment.IsNothing) :
    Offends name inside fragment (.void name)
  | notAnObject {fragment : Json} (inside : Bool) (hfull : ¬ fragment.IsNothing)
    (h : ∀ members, fragment ≠ .obj members) :
    Offends name inside fragment (.rejected name (.notAnObject fragment))
  | propertiesNotAnObject {members : Json.Object} {value : Json} (inside : Bool)
    (hproperties : members.find? "properties" = some value)
    (h : ∀ properties, value ≠ .obj properties) :
    Offends name inside (.obj members) (.rejected name .propertiesNotAnObject)
  | noItems {members : Json.Object} (inside : Bool) (hnone : members.find? "properties" = none)
    (htype : (Json.obj members).text? "type" = some "array")
    (hitems : members.find? "items" = none) :
    Offends name inside (.obj members) (.rejected name .noItems)
  | unsupported {members : Json.Object} (inside : Bool) (hfull : members ≠ [])
    (hnone : members.find? "properties" = none)
    (h : ∀ type ∈ ["array", "integer", "string", "boolean", "number"],
      (Json.obj members).text? "type" ≠ some type) :
    Offends name inside (.obj members) (.rejected name (.unsupported (members.find? "type")))
  | orphanBounded {members : Json.Object} (h : IsBounded members) :
    Offends name false (.obj members) (.orphan name "constrained number")
  | orphanArray {members : Json.Object} {items : Json} (hnone : members.find? "properties" = none)
    (htype : (Json.obj members).text? "type" = some "array")
    (hitems : members.find? "items" = some items) :
    Offends name false (.obj members) (.orphan name "array")
  | orphanScalar {members : Json.Object} {type : String}
    (hnone : members.find? "properties" = none)
    (htype : (Json.obj members).text? "type" = some type)
    (hscalar : type ∈ ["integer", "string", "boolean", "number"]) :
    Offends name false (.obj members) (.orphan name "scalar")

/-- The first offending fragment, outer ones before their parts and properties
in ascending order of their keys. Properties of type null are left out, and all
before the one that leads to the offense are accepted. -/
inductive FirstOffense : (name : String) → (inside : Bool) → Json → Error → Prop
  | here {name : String} {inside : Bool} {fragment : Json} {error : Error}
    (h : Offends name inside fragment error) : FirstOffense name inside fragment error
  | property {name : String} {members properties : Json.Object} {key : String} {property : Json}
    {error : Error} (inside : Bool) (hbounded : ¬ IsBounded members)
    (hproperties : members.find? "properties" = some (.obj properties))
    (hproperty : (key, property) ∈ properties)
    (hbefore : ∀ entry ∈ properties, entry.1 < key → entry.2.text? "type" ≠ some "null" →
      Accepts true entry.2)
    (htype : property.text? "type" ≠ some "null") (hpart : FirstOffense key true property error) :
    FirstOffense name inside (.obj members) error
  | items {name : String} {members : Json.Object} {items : Json} {error : Error}
    (hnone : members.find? "properties" = none)
    (htype : (Json.obj members).text? "type" = some "array")
    (hitems : members.find? "items" = some items)
    (hpart : FirstOffense ((items.text? "title").getD name) true items error) :
    FirstOffense name true (.obj members) error

/-- The first offense in the properties of an object. -/
def OffenseInParts (properties : Json.Object) (error : Error) : Prop :=
  ∃ key property, (key, property) ∈ properties ∧
    (∀ entry ∈ properties, entry.1 < key → entry.2.text? "type" ≠ some "null" →
      Accepts true entry.2) ∧
    property.text? "type" ≠ some "null" ∧ FirstOffense key true property error

/-- The first offense in a fragment of a known kind. -/
def OffenseInKind (name : String) (inside : Bool) (error : Error) : Kind → Prop
  | .top object => OffenseInParts object.properties error
  | .nested object => OffenseInParts object.properties error
  | .array array =>
    if inside then FirstOffense (array.itemTitle?.getD name) true array.items error
    else error = .orphan name (Kind.array array).label
  | .scalar type => inside = false ∧ error = .orphan name (Kind.scalar type).label
  | .boundedNumber => inside = false ∧ error = .orphan name Kind.boundedNumber.label

/-- The first offense in a fragment that is not empty, by its classification. -/
def OffenseInResult (name : String) (inside : Bool) (error : Error) :
    Except Rejection Kind → Prop
  | .error rejection => error = .rejected name rejection
  | .ok kind => OffenseInKind name inside error kind

variable {name : String} {inside : Bool} {members : Json.Object} {fragment : Json} {error : Error}

theorem isNothing_obj_iff : (Json.obj members).IsNothing ↔ members = [] := by
  constructor
  · intro h
    cases h
    rfl
  · rintro rfl
    exact .obj

theorem ne_nil_of_find? {key : String} {value : Json} (h : members.find? key = some value) :
    members ≠ [] := by
  rintro rfl
  simp [Members.find?] at h

theorem ne_nil_of_text? {key text : String} (h : (Json.obj members).text? key = some text) :
    members ≠ [] := by
  obtain ⟨value, hvalue, -⟩ := Option.bind_eq_some_iff.1 h
  exact ne_nil_of_find? hvalue

theorem Accepts.not_isNothing (h : Accepts inside fragment) : ¬ fragment.IsNothing := by
  obtain ⟨members, rfl⟩ := h.exists_obj
  rw [isNothing_obj_iff]
  rintro rfl
  obtain ⟨-, ⟨htype, -⟩ | ⟨type, -, htype⟩⟩ := h.of_none rfl
  · exact ne_nil_of_text? htype rfl
  · exact ne_nil_of_text? htype rfl

theorem FirstOffense.of_not_obj (h : FirstOffense name inside fragment error)
    (hother : ∀ members, fragment ≠ .obj members) :
    (fragment.IsNothing ∧ error = .void name) ∨
      (¬ fragment.IsNothing ∧ error = .rejected name (.notAnObject fragment)) := by
  cases h with
  | here h =>
    cases h with
    | void _ hnothing => exact Or.inl ⟨hnothing, rfl⟩
    | notAnObject _ hfull => exact Or.inr ⟨hfull, rfl⟩
    | _ => exact absurd rfl (hother _)
  | _ => exact absurd rfl (hother _)

/-- With properties an object offends by them or as a bounded number. -/
theorem FirstOffense.of_some {value : Json} (h : FirstOffense name inside (.obj members) error)
    (hsome : members.find? "properties" = some value) :
    ((∀ properties, value ≠ .obj properties) ∧ error = .rejected name .propertiesNotAnObject) ∨
      (IsBounded members ∧ inside = false ∧ error = .orphan name "constrained number") ∨
      (¬ IsBounded members ∧
        ∃ properties, value = .obj properties ∧ OffenseInParts properties error) := by
  cases h with
  | here h =>
    cases h with
    | void _ hnothing => exact absurd (isNothing_obj_iff.1 hnothing) (ne_nil_of_find? hsome)
    | notAnObject _ _ hother => exact absurd rfl (hother members)
    | propertiesNotAnObject _ hproperties hother =>
      obtain rfl := Option.some.inj (hsome.symm.trans hproperties)
      exact Or.inl ⟨hother, rfl⟩
    | orphanBounded hbounded => exact Or.inr (Or.inl ⟨hbounded, rfl, rfl⟩)
    | noItems _ hnone _ _ => exact absurd (hsome.symm.trans hnone) (by simp)
    | unsupported _ _ hnone _ => exact absurd (hsome.symm.trans hnone) (by simp)
    | orphanArray hnone _ _ => exact absurd (hsome.symm.trans hnone) (by simp)
    | orphanScalar hnone _ _ => exact absurd (hsome.symm.trans hnone) (by simp)
  | property _ hbounded hproperties hproperty hbefore htype hpart =>
    obtain rfl := Option.some.inj (hsome.symm.trans hproperties)
    exact Or.inr (Or.inr ⟨hbounded, _, rfl, _, _, hproperty, hbefore, htype, hpart⟩)
  | items hnone _ _ _ => exact absurd (hsome.symm.trans hnone) (by simp)

/-- Without properties an object offends by its type or its items. -/
theorem FirstOffense.of_none (h : FirstOffense name inside (.obj members) error)
    (hnone : members.find? "properties" = none) :
    (members = [] ∧ error = .void name) ∨
      ((Json.obj members).text? "type" = some "array" ∧
        ((members.find? "items" = none ∧ error = .rejected name .noItems) ∨
          ∃ items, members.find? "items" = some items ∧
            ((inside = false ∧ error = .orphan name "array") ∨
              (inside = true ∧
                FirstOffense ((items.text? "title").getD name) true items error)))) ∨
      (∃ type ∈ ["integer", "string", "boolean", "number"],
        (Json.obj members).text? "type" = some type ∧
          inside = false ∧ error = .orphan name "scalar") ∨
      (members ≠ [] ∧ (∀ type ∈ ["array", "integer", "string", "boolean", "number"],
        (Json.obj members).text? "type" ≠ some type) ∧
          error = .rejected name (.unsupported (members.find? "type"))) := by
  cases h with
  | here h =>
    cases h with
    | void _ hnothing => exact Or.inl ⟨isNothing_obj_iff.1 hnothing, rfl⟩
    | notAnObject _ _ hother => exact absurd rfl (hother members)
    | propertiesNotAnObject _ hproperties _ => exact absurd (hnone.symm.trans hproperties) (by simp)
    | noItems _ _ htype hitems => exact Or.inr (Or.inl ⟨htype, Or.inl ⟨hitems, rfl⟩⟩)
    | unsupported _ hfull _ hother => exact Or.inr (Or.inr (Or.inr ⟨hfull, hother, rfl⟩))
    | orphanBounded hbounded =>
      obtain ⟨properties, hproperties⟩ := hbounded.find?_properties
      exact absurd (hnone.symm.trans hproperties) (by simp)
    | orphanArray _ htype hitems =>
      exact Or.inr (Or.inl ⟨htype, Or.inr ⟨_, hitems, Or.inl ⟨rfl, rfl⟩⟩⟩)
    | orphanScalar _ htype hscalar => exact Or.inr (Or.inr (Or.inl ⟨_, hscalar, htype, rfl, rfl⟩))
  | property _ _ hproperties _ _ _ _ => exact absurd (hnone.symm.trans hproperties) (by simp)
  | items _ htype hitems hpart =>
    exact Or.inr (Or.inl ⟨htype, Or.inr ⟨_, hitems, Or.inr ⟨rfl, hpart⟩⟩⟩)

/-- Without properties an array offends by its items. -/
theorem FirstOffense.of_array (h : FirstOffense name inside (.obj members) error)
    (hnone : members.find? "properties" = none)
    (htype : (Json.obj members).text? "type" = some "array") :
    (members.find? "items" = none ∧ error = .rejected name .noItems) ∨
      ∃ items, members.find? "items" = some items ∧
        ((inside = false ∧ error = .orphan name "array") ∨
          (inside = true ∧ FirstOffense ((items.text? "title").getD name) true items error)) := by
  rcases h.of_none hnone with ⟨hnil, -⟩ | ⟨-, hcases⟩ | ⟨type, hscalar, hfound, -⟩ | ⟨-, hother, -⟩
  · exact absurd hnil (ne_nil_of_text? htype)
  · exact hcases
  · exact absurd htype (text?_ne_array hscalar hfound)
  · exact absurd htype (hother "array" List.mem_cons_self)

/-- The only offense of an empty fragment. -/
theorem firstOffense_iff_of_isNothing (hnothing : fragment.IsNothing) :
    FirstOffense name inside fragment error ↔ error = .void name := by
  constructor
  · intro h
    cases fragment with
    | obj members =>
      obtain rfl := isNothing_obj_iff.1 hnothing
      rcases h.of_none rfl with ⟨-, heq⟩ | ⟨htype, -⟩ | ⟨type, -, htype, -⟩ | ⟨hfull, -⟩
      · exact heq
      · exact absurd rfl (ne_nil_of_text? htype)
      · exact absurd rfl (ne_nil_of_text? htype)
      · exact absurd rfl hfull
    | _ =>
      rcases h.of_not_obj (fun members heq => by simp at heq) with ⟨-, heq⟩ | ⟨hfull, -⟩
      · exact heq
      · exact absurd hnothing hfull
  · rintro rfl
    exact .here (.void inside hnothing)

theorem firstOffense_iff_of_shape {result : Except Rejection Kind} (hfull : ¬ fragment.IsNothing)
    (hshape : Shape fragment result) :
    FirstOffense name inside fragment error ↔ OffenseInResult name inside error result := by
  cases hshape with
  | notAnObject hother =>
    constructor
    · intro h
      exact ((h.of_not_obj hother).resolve_left fun hboth => hfull hboth.1).2
    · rintro rfl
      exact .here (.notAnObject inside hfull hother)
  | propertiesNotAnObject hproperties hother =>
    constructor
    · intro h
      rcases h.of_some hproperties with ⟨-, heq⟩ | ⟨hbounded, -⟩ | ⟨-, properties, heq, -⟩
      · exact heq
      · obtain ⟨properties, hfound⟩ := hbounded.find?_properties
        exact absurd (Option.some.inj (hproperties.symm.trans hfound)) (hother properties)
      · exact absurd heq (hother properties)
    · rintro rfl
      exact .here (.propertiesNotAnObject inside hproperties hother)
  | bounded hbounded =>
    obtain ⟨properties, hproperties⟩ := hbounded.find?_properties
    constructor
    · intro h
      rcases h.of_some hproperties with ⟨hother, -⟩ | ⟨-, hboth⟩ | ⟨hnot, -⟩
      · exact absurd rfl (hother properties)
      · exact hboth
      · exact absurd hbounded hnot
    · rintro ⟨rfl, rfl⟩
      exact .here (.orphanBounded hbounded)
  | @table members object kind hbounded hproperties hobject =>
    have hparts : OffenseInResult name inside error (.ok kind) ↔
        OffenseInParts object.properties error := by
      rcases hobject with rfl | rfl <;> rfl
    refine Iff.trans ?_ hparts.symm
    constructor
    · intro h
      rcases h.of_some hproperties with ⟨hother, -⟩ | ⟨hyes, -⟩ | ⟨-, properties, heq, hparts⟩
      · exact absurd rfl (hother object.properties)
      · exact absurd hyes hbounded
      · rw [Json.obj.inj heq]
        exact hparts
    · rintro ⟨key, property, hproperty, hbefore, htype, hpart⟩
      exact .property inside hbounded hproperties hproperty hbefore htype hpart
  | @array members items hnone htype hitems =>
    constructor
    · intro h
      rcases h.of_array hnone htype with ⟨hfound, -⟩ |
        ⟨found, hfound, ⟨rfl, rfl⟩ | ⟨rfl, hpart⟩⟩
      · exact absurd (hitems.symm.trans hfound) (by simp)
      · rfl
      · obtain rfl := Option.some.inj (hitems.symm.trans hfound)
        exact hpart
    · intro h
      cases inside with
      | true => exact .items hnone htype hitems h
      | false =>
        obtain rfl : error = .orphan name "array" := h
        exact .here (.orphanArray hnone htype hitems)
  | noItems hnone htype hitems =>
    constructor
    · intro h
      rcases h.of_array hnone htype with ⟨-, heq⟩ | ⟨found, hfound, -⟩
      · exact heq
      · exact absurd (hitems.symm.trans hfound) (by simp)
    · rintro rfl
      exact .here (.noItems inside hnone htype hitems)
  | scalar type hnone htype =>
    have hscalar := scalarType_name_mem type
    constructor
    · intro h
      rcases h.of_none hnone with ⟨hnil, -⟩ | ⟨harray, -⟩ | ⟨found, -, -, hboth⟩ | ⟨-, hother, -⟩
      · exact absurd hnil (ne_nil_of_text? htype)
      · exact absurd harray (text?_ne_array hscalar htype)
      · exact hboth
      · exact absurd htype (hother type.name (List.mem_cons_of_mem _ hscalar))
    · rintro ⟨rfl, rfl⟩
      exact .here (.orphanScalar hnone htype hscalar)
  | unsupported hnone hother =>
    constructor
    · intro h
      rcases h.of_none hnone with ⟨hnil, -⟩ | ⟨harray, -⟩ | ⟨found, hscalar, htype, -⟩ | ⟨-, -, heq⟩
      · exact absurd (isNothing_obj_iff.2 hnil) hfull
      · exact absurd harray (hother "array" List.mem_cons_self)
      · exact absurd htype (hother found (List.mem_cons_of_mem _ hscalar))
      · exact heq
    · rintro rfl
      refine .here (.unsupported inside (fun hnil => ?_) hnone hother)
      exact hfull (isNothing_obj_iff.2 hnil)

/-- What the first offense in a fragment is can be told from its kind. -/
theorem firstOffense_iff (name : String) (inside : Bool) (fragment : Json) (error : Error) :
    FirstOffense name inside fragment error ↔
      if fragment.isVoid then error = .void name
      else OffenseInResult name inside error (classify fragment) := by
  split
  · next hvoid => exact firstOffense_iff_of_isNothing (Json.isVoid_iff.1 hvoid)
  · next hvoid =>
    exact firstOffense_iff_of_shape (fun hnothing => hvoid (Json.isVoid_iff.2 hnothing))
      (shape_classify fragment)

end Schema

end DocumentViews

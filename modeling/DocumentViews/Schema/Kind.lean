import DocumentViews.Json.Basic
import DocumentViews.ScalarType

/-!
The kinds of schema fragments. A fragment with properties is an object, which
is the top one when it names its schema language, and a bounded number when
its two required properties are the numbers `min` and `max`. Without
properties it is an array or a scalar, as its type says. Everything else is
rejected for a reason.
-/

namespace DocumentViews.Schema

structure ObjectSchema where
  properties : Json.Object
  required : Option (List Json)

structure ArraySchema where
  items : Json

inductive Kind where
  | top (object : ObjectSchema)
  | boundedNumber
  | nested (object : ObjectSchema)
  | array (array : ArraySchema)
  | scalar (type : ScalarType)

/-- Why a fragment is of no kind. -/
inductive Rejection where
  | notAnObject (found : Json)
  | propertiesNotAnObject
  | noItems
  | unsupported (type : Option Json)

/-- The title that items give themselves. -/
def ArraySchema.itemTitle? (array : ArraySchema) : Option String :=
  array.items.text? "title"

namespace Kind

def label : Kind → String
  | top _ => "top"
  | boundedNumber => "constrained number"
  | nested _ => "nested"
  | array _ => "array"
  | scalar _ => "scalar"

/-- The type of the values that have no parts. -/
def scalarType? : Kind → Option ScalarType
  | scalar type => some type
  | boundedNumber => some .number
  | _ => none

def object? : Kind → Option ObjectSchema
  | top object => some object
  | nested object => some object
  | _ => none

end Kind

def isNumeric (property : Json) : Bool :=
  property.text? "type" = some "number" || property.text? "type" = some "integer"

/-- Whether the object stands for a number between two bounds. -/
def ObjectSchema.isBoundedNumber (object : ObjectSchema) : Bool :=
  object.properties.length == 2 &&
    (object.properties.find? "min").any isNumeric &&
    (object.properties.find? "max").any isNumeric &&
    object.required.any (·.length == 2)

/-- The kind of a fragment with properties. -/
def kindOfObject (members : Json.Object) (object : ObjectSchema) : Kind :=
  if members.contains "$schema" then .top object
  else if object.isBoundedNumber then .boundedNumber
  else .nested object

/-- The kind of a fragment that is an object of JSON. -/
def classifyMembers (members : Json.Object) : Except Rejection Kind :=
  match members.find? "properties" with
  | some (.obj properties) =>
    .ok (kindOfObject members ⟨properties, (members.find? "required").bind Json.asArray?⟩)
  | some _ => .error .propertiesNotAnObject
  | none =>
    let typeName := (members.find? "type").bind Json.asString?
    if typeName = some "array" then
      match members.find? "items" with
      | some items => .ok (.array ⟨items⟩)
      | none => .error .noItems
    else
      match typeName.bind ScalarType.ofName? with
      | some type => .ok (.scalar type)
      | none => .error (.unsupported (members.find? "type"))

def classify (fragment : Json) : Except Rejection Kind :=
  match fragment with
  | .obj members => classifyMembers members
  | _ => .error (.notAnObject fragment)

theorem object?_kindOfObject {members : Json.Object} {object found : ObjectSchema}
    (h : (kindOfObject members object).object? = some found) : found = object := by
  unfold kindOfObject at h
  split at h
  · exact (Option.some.inj h).symm
  · split at h
    · simp [Kind.object?] at h
    · exact (Option.some.inj h).symm

theorem kindOfObject_ne_array (members : Json.Object) (object : ObjectSchema)
    (array : ArraySchema) : kindOfObject members object ≠ .array array := by
  unfold kindOfObject
  split
  · simp
  · split <;> simp

/-- The parts of a fragment are smaller than the fragment. -/
theorem sizeOf_of_classify {fragment : Json} {kind : Kind} (h : classify fragment = .ok kind) :
    (∀ object, kind.object? = some object → sizeOf object.properties < sizeOf fragment) ∧
      ∀ array, kind = .array array → sizeOf array.items < sizeOf fragment := by
  unfold classify at h
  split at h
  · next members =>
    unfold classifyMembers at h
    split at h
    · next properties hfind =>
      have := Members.sizeOf_find? hfind
      obtain rfl := Except.ok.inj h
      refine ⟨fun object hobject => ?_, fun array harray => ?_⟩
      · rw [object?_kindOfObject hobject]
        simp only [Json.obj.sizeOf_spec] at *
        omega
      · exact absurd harray (kindOfObject_ne_array _ _ _)
    · simp at h
    · simp only at h
      split at h
      · split at h
        · next items hfind =>
          have := Members.sizeOf_find? hfind
          obtain rfl := Except.ok.inj h
          simp_all [Kind.object?]
          omega
        · simp at h
      · split at h
        · obtain rfl := Except.ok.inj h
          simp [Kind.object?]
        · simp at h
  · simp at h

end DocumentViews.Schema

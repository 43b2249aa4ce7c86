import Mathlib
import DocumentViews.Schema.Walk

/-!
The registrations of a schema fragment, by recursion over the fragment alone.
Each names the node around it and the property keys that lead to it. They end
with the first offending fragment. No graph takes part.
-/

namespace DocumentViews.Schema

/-- A node to be registered under the node around it. -/
structure Registration where
  around : Option Node
  node : Node
  /-- The property keys that lead from the outermost fragment to this one. -/
  place : List String

/-- The registrations of a fragment in order, and the node that stands for it
or the error that cuts them off. -/
structure Trace where
  registrations : List Registration
  result : Except Error (Option Node)

namespace Trace

def fault (error : Error) : Trace :=
  ⟨[], .error error⟩

def nothing : Trace :=
  ⟨[], .ok none⟩

/-- A registration whose node stands for all that follows inside. -/
def inside (registration : Registration) (parts : Trace) : Trace :=
  ⟨registration :: parts.registrations, parts.result.map fun _ => some registration.node⟩

/-- One trace after another, unless the first is cut off. -/
def andThen (first later : Trace) : Trace :=
  match first.result with
  | .error _ => first
  | .ok _ => ⟨first.registrations ++ later.registrations, later.result⟩

theorem registrations_andThen (first later : Trace) :
    (first.andThen later).registrations = first.registrations ∨
      (first.andThen later).registrations = first.registrations ++ later.registrations := by
  unfold andThen
  split
  · exact Or.inl rfl
  · exact Or.inr rfl

theorem mem_andThen {first later : Trace} {registration : Registration}
    (h : registration ∈ (first.andThen later).registrations) :
    registration ∈ first.registrations ∨ registration ∈ later.registrations := by
  rcases registrations_andThen first later with heq | heq
  · rw [heq] at h
    exact Or.inl h
  · rw [heq] at h
    exact List.mem_append.1 h

end Trace

/-- The registration of a column, which needs a node around it. -/
def traceColumn (around : Option Node) (name : String) (key : Option String) (type : ScalarType)
    (place : List String) (label : String) : Trace :=
  match around with
  | none => .fault (.orphan name label)
  | some table =>
    .inside ⟨some table, .field (Naming.columnName name) key type, place⟩ .nothing

mutual

/-- The registrations of a fragment under a name, a key and a node. The items
of an array stand at the place of the array. -/
def traceFragment (around : Option Node) (fragment : Json) (name : String) (key : Option String)
    (place : List String) : Trace :=
  if fragment.isVoid then .fault (.void name)
  else
    match hkind : classify fragment with
    | .error rejection => .fault (.rejected name rejection)
    | .ok (.top object) =>
      have := (sizeOf_of_classify hkind).1 object rfl
      traceObject around object.properties name key place
    | .ok (.nested object) =>
      have := (sizeOf_of_classify hkind).1 object rfl
      traceObject around object.properties name key place
    | .ok (.array array) =>
      have := (sizeOf_of_classify hkind).2 array rfl
      match around with
      | none => .fault (.orphan name (Kind.array array).label)
      | some outer =>
        let table := Node.table (Naming.tableName name) key
        .inside ⟨some outer, table, place⟩
          (traceFragment (some table) array.items (array.itemTitle?.getD name) none place)
    | .ok (.scalar type) => traceColumn around name key type place (Kind.scalar type).label
    | .ok .boundedNumber => traceColumn around name key .number place Kind.boundedNumber.label
termination_by 2 * sizeOf fragment

/-- The registrations of an object by its properties. -/
def traceObject (around : Option Node) (properties : Json.Object) (name : String)
    (key : Option String) (place : List String) : Trace :=
  if properties.isEmpty then .nothing
  else
    let table := Node.table (Naming.tableName name) key
    .inside ⟨around, table, place⟩ (traceProperties table properties place)
termination_by 2 * sizeOf properties + 1

/-- The registrations of properties under a table. A property stands at its
key behind the place of the table. -/
def traceProperties (table : Node) (properties : Json.Object) (place : List String) : Trace :=
  match properties with
  | [] => .nothing
  | (key, property) :: rest =>
    if property.text? "type" = some "null" then traceProperties table rest place
    else
      (traceFragment (some table) property key (some key) (place ++ [key])).andThen
        (traceProperties table rest place)
termination_by 2 * sizeOf properties
decreasing_by
  all_goals
    simp only [List.cons.sizeOf_spec, Prod.mk.sizeOf_spec]
    omega

end

/-- The registrations of a whole schema. -/
def traceDocument (schema : Json) (name : String) : Trace :=
  traceFragment none schema name (some name) []

/-- The registrations of a fragment of a known kind. -/
def traceKind (around : Option Node) (name : String) (key : Option String) (place : List String) :
    Kind → Trace
  | .top object => traceObject around object.properties name key place
  | .nested object => traceObject around object.properties name key place
  | .array array =>
    match around with
    | none => .fault (.orphan name (Kind.array array).label)
    | some outer =>
      .inside ⟨some outer, .table (Naming.tableName name) key, place⟩
        (traceFragment (some (.table (Naming.tableName name) key)) array.items
          (array.itemTitle?.getD name) none place)
  | .scalar type => traceColumn around name key type place (Kind.scalar type).label
  | .boundedNumber => traceColumn around name key .number place Kind.boundedNumber.label

theorem traceFragment_eq (around : Option Node) (fragment : Json) (name : String)
    (key : Option String) (place : List String) :
    traceFragment around fragment name key place =
      if fragment.isVoid then .fault (.void name)
      else
        match classify fragment with
        | .error rejection => .fault (.rejected name rejection)
        | .ok kind => traceKind around name key place kind := by
  rw [traceFragment]
  split
  · rfl
  · split
    all_goals
      next hkind =>
        simp only [hkind]
        try rfl

/-- How a trace under a node at a place comes about. A key leads on from the
place, and only tables have anything inside. -/
inductive Trace.IsUnder : Option Node → List String → Trace → Prop
  | fault (around : Option Node) (place : List String) (error : Error) :
    IsUnder around place (.fault error)
  | nothing (around : Option Node) (place : List String) : IsUnder around place .nothing
  | column (table : Node) (name : String) (key : Option String) (type : ScalarType)
    (place : List String) :
    IsUnder (some table) place
      (.inside ⟨some table, .field (Naming.columnName name) key type, place ++ key.toList⟩
        .nothing)
  | table (around : Option Node) (name : String) (key : Option String) (place : List String)
    (parts : Trace)
    (hparts : IsUnder (some (.table (Naming.tableName name) key)) (place ++ key.toList) parts) :
    IsUnder around place
      (.inside ⟨around, .table (Naming.tableName name) key, place ++ key.toList⟩ parts)
  | andThen (table : Node) (place : List String) (first later : Trace)
    (hfirst : IsUnder (some table) place first) (hlater : IsUnder (some table) place later) :
    IsUnder (some table) place (first.andThen later)

theorem isUnder_traceColumn (around : Option Node) (name : String) (key : Option String)
    (type : ScalarType) (place : List String) (label : String) :
    Trace.IsUnder around place
      (traceColumn around name key type (place ++ key.toList) label) := by
  cases around with
  | none => exact .fault none place _
  | some table => exact .column table name key type place

mutual

theorem isUnder_traceFragment (around : Option Node) (fragment : Json) (name : String)
    (key : Option String) (place : List String) :
    Trace.IsUnder around place (traceFragment around fragment name key (place ++ key.toList)) := by
  rw [traceFragment_eq]
  split
  · exact .fault around place _
  · cases hkind : classify fragment with
    | error rejection => exact .fault around place _
    | ok kind =>
      have hsize := sizeOf_of_classify hkind
      cases kind with
      | top object =>
        have := hsize.1 object rfl
        exact isUnder_traceObject around object.properties name key place
      | nested object =>
        have := hsize.1 object rfl
        exact isUnder_traceObject around object.properties name key place
      | array array =>
        have := hsize.2 array rfl
        cases around with
        | none => exact .fault none place _
        | some outer =>
          have hitems := isUnder_traceFragment (some (.table (Naming.tableName name) key))
            array.items (array.itemTitle?.getD name) none (place ++ key.toList)
          rw [Option.toList_none, List.append_nil] at hitems
          exact .table (some outer) name key place _ hitems
      | scalar type => exact isUnder_traceColumn around name key type place _
      | boundedNumber => exact isUnder_traceColumn around name key .number place _
termination_by 2 * sizeOf fragment

theorem isUnder_traceObject (around : Option Node) (properties : Json.Object) (name : String)
    (key : Option String) (place : List String) :
    Trace.IsUnder around place
      (traceObject around properties name key (place ++ key.toList)) := by
  rw [traceObject]
  split
  · exact .nothing around place
  · apply Trace.IsUnder.table
    exact isUnder_traceProperties _ properties (place ++ key.toList)
termination_by 2 * sizeOf properties + 1

theorem isUnder_traceProperties (table : Node) (properties : Json.Object) (place : List String) :
    Trace.IsUnder (some table) place (traceProperties table properties place) := by
  cases properties with
  | nil =>
    rw [traceProperties]
    exact .nothing _ place
  | cons entry rest =>
    obtain ⟨key, property⟩ := entry
    rw [traceProperties]
    split
    · exact isUnder_traceProperties table rest place
    · apply Trace.IsUnder.andThen
      · exact isUnder_traceFragment (some table) property key (some key) place
      · exact isUnder_traceProperties table rest place
termination_by 2 * sizeOf properties
decreasing_by
  all_goals
    simp only [List.cons.sizeOf_spec, Prod.mk.sizeOf_spec]
    omega

end

end DocumentViews.Schema

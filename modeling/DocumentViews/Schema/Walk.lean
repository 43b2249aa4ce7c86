import DocumentViews.Graph.Basic
import DocumentViews.Naming.Basic
import DocumentViews.Schema.Error

/-!
The walk over a schema. It registers a table for each object with properties
and for each array, and a column for each scalar and bounded number, and joins
what it registers to the table around it. Properties come in ascending order.
A null-typed property and an object without properties register nothing. The
first offending fragment ends the walk, and what was registered before stays.
-/

namespace DocumentViews.Schema

/-- The attributes of an edge of the given type. -/
def edgeAttributes (type : String) : Json.Object :=
  [("edge_type", .str type)]

/-- The column of a scalar fragment, under the table around it. -/
def attachColumn (graph : Graph) (name : String) (key : Option String) (type : ScalarType)
    (parent : Option Nat) (label : String) : Graph × Except Error (Option Nat) :=
  match parent with
  | none => (graph, .error (.orphan name label))
  | some parent =>
    let (graph, index) :=
      graph.add (.field (Naming.columnName name) key type) (some parent) (edgeAttributes "field_of")
    (graph, .ok (some index))

/-- The table of a compound fragment, under the table around it. -/
def attachTable (graph : Graph) (name : String) (key : Option String) (parent : Option Nat) :
    Graph × Nat :=
  graph.add (.table (Naming.tableName name) key) parent (edgeAttributes "related_to")

mutual

/-- Registers a fragment under a name, a key and a parent. Returns the node
that stands for it, if one does. -/
def walkFragment (graph : Graph) (fragment : Json) (name : String) (key : Option String)
    (parent : Option Nat) : Graph × Except Error (Option Nat) :=
  if fragment.isVoid then (graph, .error (.void name))
  else
    match hkind : classify fragment with
    | .error rejection => (graph, .error (.rejected name rejection))
    | .ok (.top object) =>
      have := (sizeOf_of_classify hkind).1 object rfl
      walkObject graph object.properties name key parent
    | .ok (.nested object) =>
      have := (sizeOf_of_classify hkind).1 object rfl
      walkObject graph object.properties name key parent
    | .ok (.array array) =>
      have := (sizeOf_of_classify hkind).2 array rfl
      match parent with
      | none => (graph, .error (.orphan name (Kind.array array).label))
      | some parent =>
        let (graph, table) := attachTable graph name key (some parent)
        match walkFragment graph array.items (array.itemTitle?.getD name) none (some table) with
        | (graph, .error error) => (graph, .error error)
        | (graph, .ok _) => (graph, .ok (some table))
    | .ok (.scalar type) => attachColumn graph name key type parent (Kind.scalar type).label
    | .ok .boundedNumber =>
      attachColumn graph name key .number parent Kind.boundedNumber.label
termination_by 2 * sizeOf fragment

/-- Registers an object by its properties. -/
def walkObject (graph : Graph) (properties : Json.Object) (name : String) (key : Option String)
    (parent : Option Nat) : Graph × Except Error (Option Nat) :=
  if properties.isEmpty then (graph, .ok none)
  else
    let (graph, table) := attachTable graph name key parent
    match walkProperties graph properties table with
    | (graph, .error error) => (graph, .error error)
    | (graph, .ok ()) => (graph, .ok (some table))
termination_by 2 * sizeOf properties + 1

/-- Registers properties under a table, up to the first offending one. -/
def walkProperties (graph : Graph) (properties : Json.Object) (table : Nat) :
    Graph × Except Error Unit :=
  match properties with
  | [] => (graph, .ok ())
  | (key, property) :: rest =>
    if property.text? "type" = some "null" then walkProperties graph rest table
    else
      match walkFragment graph property key (some key) (some table) with
      | (graph, .error error) => (graph, .error error)
      | (graph, .ok _) => walkProperties graph rest table
termination_by 2 * sizeOf properties
decreasing_by
  all_goals
    simp only [List.cons.sizeOf_spec, Prod.mk.sizeOf_spec]
    omega

end

/-- Registers a fragment under a name, which is its key too. -/
def walk (graph : Graph) (fragment : Json) (name : String) (parent : Option Nat) :
    Graph × Except Error (Option Nat) :=
  walkFragment graph fragment name (some name) parent

/-- Registers a whole schema. -/
def walkDocument (graph : Graph) (schema : Json) (name : String) :
    Graph × Except Error (Option Nat) :=
  walk graph schema name none

end DocumentViews.Schema

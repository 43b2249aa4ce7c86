import Mathlib
import DocumentViews.Proofs.Graph.Building
import DocumentViews.Proofs.Schema.Trace

/-!
A walk performs the registrations of a fragment one after the other, up to the
first offending one. What the graph held before takes no part in which they
are, and what each of them keeps is kept by the walk.
-/

namespace DocumentViews

/-- The type of the edges that lead to nodes of a kind. -/
def NodeKind.edgeType : NodeKind → String
  | entity => "related_to"
  | component _ => "field_of"

end DocumentViews

namespace DocumentViews.Graph

open Schema

/-- Adds the node of a registration and joins it to the node around it. -/
def register (graph : Graph) (registration : Registration) : Graph :=
  (graph.add registration.node (registration.around.bind (graph.indexOf? ·.id))
    (edgeAttributes registration.node.kind.edgeType)).1

def registerAll (graph : Graph) (registrations : List Registration) : Graph :=
  registrations.foldl register graph

/-- The node around a fragment, if there is one, is a node of the graph. -/
def Knows (graph : Graph) (around : Option Node) : Prop :=
  ∀ table ∈ around, table.id ∈ graph.ids

/-- What a walk returns after the given trace: the grown graph, and the number
of the node that stands for the fragment. -/
def follow (graph : Graph) (trace : Trace) : Graph × Except Error (Option Nat) :=
  let grown := graph.registerAll trace.registrations
  (grown, trace.result.map (·.bind (grown.indexOf? ·.id)))

variable {graph : Graph}

theorem knows_none (graph : Graph) : graph.Knows none := by
  intro table hin
  simp at hin

theorem knows_some {table : Node} {index : Nat} (h : graph.indexOf? table.id = some index) :
    graph.Knows (some table) := by
  intro other hin
  rw [← Option.some.inj hin]
  exact indexOf?_isSome_iff.1 ⟨index, h⟩

theorem Knows.exists_index {table : Node} (h : graph.Knows (some table)) :
    ∃ index, graph.indexOf? table.id = some index :=
  indexOf?_isSome_iff.2 (h table rfl)

theorem registerAll_cons (graph : Graph) (registration : Registration)
    (rest : List Registration) : graph.registerAll (registration :: rest) =
      (graph.register registration).registerAll rest := rfl

theorem registerAll_append (graph : Graph) (first later : List Registration) :
    graph.registerAll (first ++ later) = (graph.registerAll first).registerAll later :=
  List.foldl_append

/-- An identifier keeps its number while nodes are registered. -/
theorem indexOf?_registerAll_of_eq_some {id : String} {index : Nat}
    (h : graph.indexOf? id = some index) (registrations : List Registration) :
    (graph.registerAll registrations).indexOf? id = some index := by
  induction registrations generalizing graph with
  | nil => exact h
  | cons registration rest ih => exact ih (indexOf?_add_of_eq_some h _ _ _)

theorem follow_nothing (graph : Graph) : graph.follow .nothing = (graph, .ok none) := rfl

/-- The node of a registration is there when what is inside it is registered,
and its number is the one that it got. -/
theorem follow_inside (graph : Graph) (registration : Registration) (parts : Trace) :
    graph.follow (.inside registration parts) =
      let added := graph.add registration.node (registration.around.bind (graph.indexOf? ·.id))
        (edgeAttributes registration.node.kind.edgeType)
      ((added.1.follow parts).1, (added.1.follow parts).2.map fun _ => some added.2) := by
  have hkept := indexOf?_registerAll_of_eq_some (indexOf?_add graph registration.node
    (registration.around.bind (graph.indexOf? ·.id))
    (edgeAttributes registration.node.kind.edgeType)) parts.registrations
  simp only [follow, Trace.inside, registerAll_cons, register]
  cases hresult : parts.result with
  | error error => rfl
  | ok node =>
    simp only [Except.map, Option.bind_some]
    rw [hkept]

theorem follow_andThen (graph : Graph) (first later : Trace) :
    graph.follow (first.andThen later) =
      match (graph.follow first).2 with
      | .error error => ((graph.follow first).1, .error error)
      | .ok _ => (graph.follow first).1.follow later := by
  simp only [follow, Trace.andThen]
  cases hresult : first.result with
  | error error =>
    simp only [hresult]
    rfl
  | ok node =>
    simp only [registerAll_append]
    rfl

end DocumentViews.Graph

namespace DocumentViews.Schema

variable {graph : Graph}

/-- What a walk does to a fragment of a known kind. -/
def walkKind (graph : Graph) (name : String) (key : Option String) (parent : Option Nat) :
    Kind → Graph × Except Error (Option Nat)
  | .top object => walkObject graph object.properties name key parent
  | .nested object => walkObject graph object.properties name key parent
  | .array array =>
    match parent with
    | none => (graph, .error (.orphan name (Kind.array array).label))
    | some parent =>
      let added := attachTable graph name key (some parent)
      let items := walkFragment added.1 array.items (array.itemTitle?.getD name) none (some added.2)
      (items.1, items.2.map fun _ => some added.2)
  | .scalar type => attachColumn graph name key type parent (Kind.scalar type).label
  | .boundedNumber => attachColumn graph name key .number parent Kind.boundedNumber.label

theorem walkFragment_eq (graph : Graph) (fragment : Json) (name : String) (key : Option String)
    (parent : Option Nat) :
    walkFragment graph fragment name key parent =
      if fragment.isVoid then (graph, .error (.void name))
      else
        match classify fragment with
        | .error rejection => (graph, .error (.rejected name rejection))
        | .ok kind => walkKind graph name key parent kind := by
  rw [walkFragment]
  split
  · rfl
  · split
    case h_4 array hkind =>
      simp only [hkind, walkKind]
      cases parent with
      | none => rfl
      | some parent =>
        simp only
        split
        · next h =>
          rw [h]
          rfl
        · next h =>
          rw [h]
          rfl
    all_goals
      next hkind =>
        simp only [hkind]
        try rfl

theorem walkObject_eq (graph : Graph) (properties : Json.Object) (name : String)
    (key : Option String) (parent : Option Nat) :
    walkObject graph properties name key parent =
      if properties.isEmpty then (graph, .ok none)
      else
        let added := attachTable graph name key parent
        let parts := walkProperties added.1 properties added.2
        (parts.1, parts.2.map fun _ => some added.2) := by
  rw [walkObject]
  split
  · rfl
  · simp only
    split
    · next h =>
      rw [h]
      rfl
    · next h =>
      rw [h]
      rfl

theorem walkProperties_cons (graph : Graph) (key : String) (property : Json)
    (rest : Json.Object) (table : Nat) :
    walkProperties graph ((key, property) :: rest) table =
      if property.text? "type" = some "null" then walkProperties graph rest table
      else
        let first := walkFragment graph property key (some key) (some table)
        match first.2 with
        | .error error => (first.1, .error error)
        | .ok _ => walkProperties first.1 rest table := by
  rw [walkProperties]
  split
  · rfl
  · split
    · next h => rw [h]
    · next h => rw [h]

theorem map_const_map {ε α β γ : Type} (result : Except ε α) (change : α → β) (value : γ) :
    (result.map change).map (fun _ => value) = result.map fun _ => value := by
  cases result with
  | error error => rfl
  | ok node => rfl

theorem attachColumn_eq_follow {around : Option Node}
    (haround : graph.Knows around) (name : String)
    (key : Option String) (type : ScalarType) (place : List String) (label : String) :
    attachColumn graph name key type (around.bind (graph.indexOf? ·.id)) label =
      graph.follow (traceColumn around name key type place label) := by
  cases around with
  | none => rfl
  | some table =>
    obtain ⟨index, hindex⟩ := haround.exists_index
    simp only [attachColumn, traceColumn, Graph.follow_inside, Graph.follow_nothing,
      Option.bind_some, hindex, Except.map]
    rfl

mutual

/-- A walk registers what the trace of the fragment lists. The node around it
has to be known. -/
theorem walkFragment_eq_follow (graph : Graph) {around : Option Node}
    (haround : graph.Knows around)
    (fragment : Json) (name : String) (key : Option String) (place : List String) :
    walkFragment graph fragment name key (around.bind (graph.indexOf? ·.id)) =
      graph.follow (traceFragment around fragment name key place) := by
  rw [walkFragment_eq, traceFragment_eq]
  split
  · rfl
  · cases hkind : classify fragment with
    | error rejection => rfl
    | ok kind =>
      have hsize := sizeOf_of_classify hkind
      cases kind with
      | top object =>
        have := hsize.1 object rfl
        exact walkObject_eq_follow graph around object.properties name key place
      | nested object =>
        have := hsize.1 object rfl
        exact walkObject_eq_follow graph around object.properties name key place
      | array array =>
        have := hsize.2 array rfl
        cases around with
        | none => rfl
        | some outer =>
          obtain ⟨index, hindex⟩ := haround.exists_index
          have htable := Graph.indexOf?_add graph (.table (Naming.tableName name) key) (some index)
            (edgeAttributes "related_to")
          have hitems := walkFragment_eq_follow _ (Graph.knows_some htable) array.items
            (array.itemTitle?.getD name) none place
          rw [Option.bind_some, htable] at hitems
          simp only [walkKind, traceKind, Graph.follow_inside, Option.bind_some, hindex]
          simp only [attachTable, hitems]
          rfl
      | scalar type => exact attachColumn_eq_follow haround name key type place _
      | boundedNumber => exact attachColumn_eq_follow haround name key .number place _
termination_by 2 * sizeOf fragment

theorem walkObject_eq_follow (graph : Graph) (around : Option Node) (properties : Json.Object)
    (name : String) (key : Option String) (place : List String) :
    walkObject graph properties name key (around.bind (graph.indexOf? ·.id)) =
      graph.follow (traceObject around properties name key place) := by
  rw [walkObject_eq, traceObject]
  split
  · rfl
  · have htable := Graph.indexOf?_add graph (.table (Naming.tableName name) key)
      (around.bind (graph.indexOf? ·.id)) (edgeAttributes "related_to")
    have hparts := walkProperties_eq_follow _ htable properties place
    simp only [attachTable, hparts, Graph.follow_inside]
    exact Prod.ext rfl (map_const_map _ _ _)
termination_by 2 * sizeOf properties + 1

theorem walkProperties_eq_follow (graph : Graph) {table : Node} {index : Nat}
    (htable : graph.indexOf? table.id = some index) (properties : Json.Object)
    (place : List String) :
    walkProperties graph properties index =
      ((graph.follow (traceProperties table properties place)).1,
        (graph.follow (traceProperties table properties place)).2.map fun _ => ()) := by
  cases properties with
  | nil =>
    rw [walkProperties, traceProperties]
    rfl
  | cons entry rest =>
    obtain ⟨key, property⟩ := entry
    rw [walkProperties_cons, traceProperties]
    split
    · exact walkProperties_eq_follow graph htable rest place
    · have hproperty := walkFragment_eq_follow graph (Graph.knows_some htable) property key
        (some key) (place ++ [key])
      -- The property may grow the graph, but the table keeps its number.
      have hkept := Graph.indexOf?_registerAll_of_eq_some htable
        (traceFragment (some table) property key (some key) (place ++ [key])).registrations
      have hrest := walkProperties_eq_follow _ hkept rest place
      rw [Option.bind_some, htable] at hproperty
      simp only [hproperty, Graph.follow_andThen]
      cases (graph.follow
          (traceFragment (some table) property key (some key) (place ++ [key]))).2 with
      | error error => rfl
      | ok node => exact hrest
termination_by 2 * sizeOf properties
decreasing_by
  all_goals
    simp only [List.cons.sizeOf_spec, Prod.mk.sizeOf_spec]
    omega

end

/-- A walk over a whole schema registers what the trace of the schema lists. -/
theorem walkDocument_eq_follow (graph : Graph) (schema : Json) (name : String) :
    walkDocument graph schema name = graph.follow (traceDocument schema name) :=
  walkFragment_eq_follow graph (Graph.knows_none graph) schema name (some name) []

/-- Whatever is added to a graph keeps a property of it. -/
def IsKept (P : Graph → Prop) : Prop :=
  ∀ graph node parent attributes, P graph → P (graph.add node parent attributes).1

variable {P : Graph → Prop}

theorem IsKept.attachColumn (hkept : IsKept P) (h : P graph) (name : String)
    (key : Option String) (type : ScalarType) (parent : Option Nat) (label : String) :
    P (Schema.attachColumn graph name key type parent label).1 := by
  cases parent with
  | none => exact h
  | some parent =>
    exact hkept graph (.field (Naming.columnName name) key type) (some parent)
      (edgeAttributes "field_of") h

mutual

/-- A walk keeps what additions keep, whatever number it is given for the node
around it. -/
theorem IsKept.walkFragment (hkept : IsKept P) {graph : Graph} (h : P graph) (fragment : Json)
    (name : String) (key : Option String) (parent : Option Nat) :
    P (Schema.walkFragment graph fragment name key parent).1 := by
  rw [walkFragment_eq]
  split
  · exact h
  · cases hkind : classify fragment with
    | error rejection => exact h
    | ok kind =>
      have hsize := sizeOf_of_classify hkind
      cases kind with
      | top object =>
        have := hsize.1 object rfl
        exact hkept.walkObject h object.properties name key parent
      | nested object =>
        have := hsize.1 object rfl
        exact hkept.walkObject h object.properties name key parent
      | array array =>
        have := hsize.2 array rfl
        cases parent with
        | none => exact h
        | some outer => exact hkept.walkFragment (hkept _ _ _ _ h) array.items _ none _
      | scalar type => exact hkept.attachColumn h name key type parent _
      | boundedNumber => exact hkept.attachColumn h name key .number parent _
termination_by 2 * sizeOf fragment

theorem IsKept.walkObject (hkept : IsKept P) {graph : Graph} (h : P graph)
    (properties : Json.Object) (name : String) (key : Option String) (parent : Option Nat) :
    P (Schema.walkObject graph properties name key parent).1 := by
  rw [walkObject_eq]
  split
  · exact h
  · exact hkept.walkProperties (hkept _ _ _ _ h) properties _
termination_by 2 * sizeOf properties + 1

theorem IsKept.walkProperties (hkept : IsKept P) {graph : Graph} (h : P graph)
    (properties : Json.Object) (table : Nat) : P (Schema.walkProperties graph properties table).1 := by
  cases properties with
  | nil =>
    rw [Schema.walkProperties]
    exact h
  | cons entry rest =>
    obtain ⟨key, property⟩ := entry
    rw [walkProperties_cons]
    split
    · exact hkept.walkProperties h rest table
    · have hfirst := hkept.walkFragment h property key (some key) (some table)
      simp only
      split
      · exact hfirst
      · exact hkept.walkProperties hfirst rest table
termination_by 2 * sizeOf properties
decreasing_by
  all_goals
    simp only [List.cons.sizeOf_spec, Prod.mk.sizeOf_spec]
    omega

end

end DocumentViews.Schema

import Mathlib
import DocumentViews.Proofs.Schema.ReadingPlace
import DocumentViews.Proofs.View.Batch

/-!
What the views of a document cover. A planned column may be read at a place
where the schema has no scalar, and a scalar may be at a place where no column
is read, for fragments that share a node share its first key. Both are told by
the places at which registered columns are read.
-/

namespace DocumentViews

open Schema

namespace View

theorem compileGraph_eq_ok_iff {settings : Settings} {graph : Graph} {compiled : CompiledPlan} :
    compileGraph settings graph = .ok compiled ↔
      graph.plan = .ok compiled.plan ∧
        compiled.views = Batch.ofTables settings compiled.plan.tables := by
  obtain ⟨plan, views⟩ := compiled
  unfold compileGraph
  cases graph.plan with
  | error error => simp [Except.map]
  | ok other =>
    simp only [Except.map, Except.ok.injEq, CompiledPlan.mk.injEq]
    constructor
    · intro h
      obtain ⟨rfl, rfl⟩ := h
      exact ⟨rfl, rfl⟩
    · intro h
      obtain ⟨rfl, rfl⟩ := h
      exact ⟨rfl, rfl⟩

end View

/-- Some column of the plan takes values of a type from a place. -/
def Plan.Takes (plan : Plan) (type : ScalarType) (place : List String) : Prop :=
  ∃ table ∈ plan.tables, ∃ column ∈ table.columns, column.type = type ∧ column.place = place

/-- Some view has a column that takes values of a type from a place. -/
def View.CompiledPlan.Takes (compiled : View.CompiledPlan) (type : ScalarType)
    (place : List String) : Prop :=
  ∃ view ∈ compiled.views.views, ∃ table ∈ compiled.plan.tables, table.id = view.tableId ∧
    ∃ column ∈ table.columns, column.type = type ∧ column.place = place

/-- Without failures the views take what the plan takes. -/
theorem View.CompiledPlan.takes_iff {settings : View.Settings} {compiled : View.CompiledPlan}
    (hviews : compiled.views = View.Batch.ofTables settings compiled.plan.tables)
    (hcomplete : compiled.views.failures = []) {type : ScalarType} {place : List String} :
    compiled.Takes type place ↔ compiled.plan.Takes type place := by
  rw [hviews] at hcomplete
  constructor
  · intro htaken
    obtain ⟨view, -, table, htable, -, hcolumn⟩ := htaken
    exact ⟨table, htable, hcolumn⟩
  · intro htaken
    obtain ⟨table, htable, hcolumn⟩ := htaken
    obtain ⟨view, hview, hid⟩ := View.Batch.exists_view hcomplete table htable
    rw [← hviews] at hview
    exact ⟨view, hview, table, htable, hid.symm, hcolumn⟩

instance (registrations : List Registration) (type : ScalarType) (place : List String) :
    Decidable (IsDeclared registrations type place) :=
  inferInstanceAs (Decidable (∃ registration ∈ registrations, _ ∧ _))

instance (compiled : View.CompiledPlan) (type : ScalarType) (place : List String) :
    Decidable (compiled.Takes type place) :=
  inferInstanceAs (Decidable (∃ view ∈ compiled.views.views, ∃ table ∈ compiled.plan.tables, _ ∧
    ∃ column ∈ table.columns, _ ∧ _))

namespace Graph

variable {name label : String} {schema : Json} {graph : Graph} {result : Option Nat}

/-- The plan of a document takes values from where registered columns are
read, and from nowhere else. -/
theorem takes_iff_isRead (hwalk : walkDocument (empty name) schema label = (graph, .ok result))
    {plan : Plan} (hplan : graph.plan = .ok plan) {type : ScalarType} {place : List String} :
    plan.Takes type place ↔
      IsRead (traceDocument schema label).registrations (Naming.tableName label) type place := by
  obtain ⟨hnil, hacyclic, rfl⟩ := plan_eq_ok_iff.1 hplan
  obtain ⟨rest, hregistrations, hgraph⟩ := represents_of_walkDocument hwalk hnil
  have hiff := hgraph.exists_mem_layout_iff [] hacyclic type place
  rw [Node.name_table] at hiff
  rw [hregistrations]
  exact hiff

/-- When fragments that share a node agree, the plan takes every scalar from where
the schema declares it, and nothing else. -/
theorem takes_iff_isDeclared
    (hwalk : walkDocument (empty name) schema label = (graph, .ok result))
    {plan : Plan} (hplan : graph.plan = .ok plan)
    (hunambiguous : IsUnambiguous (traceDocument schema label).registrations)
    {type : ScalarType} {place : List String} :
    plan.Takes type place ↔
      IsDeclared (traceDocument schema label).registrations type place := by
  rw [takes_iff_isRead hwalk hplan]
  obtain ⟨hnil, -, -⟩ := plan_eq_ok_iff.1 hplan
  obtain ⟨rest, hregistrations, hgraph⟩ := represents_of_walkDocument hwalk hnil
  rw [hregistrations] at hunambiguous ⊢
  have hiff := isRead_iff_isDeclared hgraph.toIsDocument hunambiguous type place
  rw [Node.name_table] at hiff
  exact hiff

/-- All planned columns are read at places that the schema declares, exactly
when all registered columns are. -/
theorem declared_of_takes_iff
    (hwalk : walkDocument (empty name) schema label = (graph, .ok result))
    {plan : Plan} (hplan : graph.plan = .ok plan) :
    (∀ table ∈ plan.tables, ∀ column ∈ table.columns,
        IsDeclared (traceDocument schema label).registrations column.type column.place) ↔
      ∀ type place,
        IsRead (traceDocument schema label).registrations (Naming.tableName label) type place →
          IsDeclared (traceDocument schema label).registrations type place := by
  constructor
  · intro hdeclared type place hread
    obtain ⟨table, htable, column, hcolumn, rfl, rfl⟩ := (takes_iff_isRead hwalk hplan).2 hread
    exact hdeclared table htable column hcolumn
  · intro hdeclared table htable column hcolumn
    apply hdeclared
    apply (takes_iff_isRead hwalk hplan).1
    exact ⟨table, htable, column, hcolumn, rfl, rfl⟩

/-- Two tables with columns of one name and type, under keys of two spellings. -/
def mixedTablesSchema : Json :=
  .obj [("$schema", .str "x"), ("properties", .obj [
    ("a", .obj [("properties", .obj [("fooBar", .obj [("type", .str "string")])])]),
    ("b", .obj [("properties", .obj [("foo_bar", .obj [("type", .str "string")])])])])]

theorem walkDocument_mixedTables :
    (walkDocument (empty "g") mixedTablesSchema "root").2 = .ok (some 0) := by
  apply eq_ok_of_toOption
  decide +kernel

theorem declared_of_takes_mixedTables :
    ∃ plan, (walkDocument (empty "g") mixedTablesSchema "root").1.plan = .ok plan ∧
      ((∀ table ∈ plan.tables, ∀ column ∈ table.columns,
          IsDeclared (traceDocument mixedTablesSchema "root").registrations column.type
            column.place) ↔
        ∀ type place,
          IsRead (traceDocument mixedTablesSchema "root").registrations
            (Naming.tableName "root") type place →
          IsDeclared (traceDocument mixedTablesSchema "root").registrations type place) := by
  have hplan : (walkDocument (empty "g") mixedTablesSchema "root").1.plan.toOption.isSome := by
    decide +kernel
  obtain ⟨plan, hplan⟩ := Option.isSome_iff_exists.1 hplan
  have hwalk := eq_mk_of_snd_eq walkDocument_mixedTables
  have hiff := declared_of_takes_iff hwalk (eq_ok_of_toOption hplan)
  exact ⟨plan, eq_ok_of_toOption hplan, hiff⟩

/-- The column of the second table is read at the key of the first. -/
theorem not_declared_mixedTables :
    (walkDocument (empty "g") mixedTablesSchema "root").2 = .ok (some 0) ∧
    ∃ plan, (walkDocument (empty "g") mixedTablesSchema "root").1.plan = .ok plan ∧
      ∃ table ∈ plan.tables, ∃ column ∈ table.columns,
        ¬ IsDeclared (traceDocument mixedTablesSchema "root").registrations column.type
          column.place := by
  have hplan : (walkDocument (empty "g") mixedTablesSchema "root").1.plan.toOption.any fun plan =>
      decide (∃ table ∈ plan.tables, ∃ column ∈ table.columns,
        ¬ IsDeclared (traceDocument mixedTablesSchema "root").registrations column.type
          column.place) := by
    decide +kernel
  obtain ⟨plan, hplan, hfound⟩ := (Option.any_eq_true _ _).1 hplan
  exact ⟨walkDocument_mixedTables, plan, eq_ok_of_toOption hplan, of_decide_eq_true hfound⟩

/-- Without failures the views take every scalar of the schema, exactly when
every scalar is where a registered column of its type is read. -/
theorem takes_of_declared_iff
    (hwalk : walkDocument (empty name) schema label = (graph, .ok result))
    {settings : View.Settings} {compiled : View.CompiledPlan}
    (hcompiled : View.compileGraph settings graph = .ok compiled)
    (hcomplete : compiled.views.failures = []) :
    (∀ type place, IsDeclared (traceDocument schema label).registrations type place →
        compiled.Takes type place) ↔
      ∀ type place, IsDeclared (traceDocument schema label).registrations type place →
        IsRead (traceDocument schema label).registrations (Naming.tableName label) type place := by
  obtain ⟨hplan, hviews⟩ := View.compileGraph_eq_ok_iff.1 hcompiled
  constructor
  · intro htaken type place hdeclared
    have hplanned := (View.CompiledPlan.takes_iff hviews hcomplete).1 (htaken type place hdeclared)
    exact (takes_iff_isRead hwalk hplan).1 hplanned
  · intro hread type place hdeclared
    apply (View.CompiledPlan.takes_iff hviews hcomplete).2
    exact (takes_iff_isRead hwalk hplan).2 (hread type place hdeclared)

/-- An object with two keys that are spelled differently and mean one column. -/
def mixedKeysSchema : Json :=
  .obj [("$schema", .str "x"), ("properties", .obj [
    ("fooBar", .obj [("type", .str "string")]), ("foo_bar", .obj [("type", .str "string")])])]

theorem walkDocument_mixedKeys :
    (walkDocument (empty "g") mixedKeysSchema "root").2 = .ok (some 0) := by
  apply eq_ok_of_toOption
  decide +kernel

theorem takes_of_declared_mixedKeys :
    ∃ compiled, View.compileGraph .standard
        (walkDocument (empty "g") mixedKeysSchema "root").1 = .ok compiled ∧
      compiled.views.failures = [] ∧
      ((∀ type place,
          IsDeclared (traceDocument mixedKeysSchema "root").registrations type place →
            compiled.Takes type place) ↔
        ∀ type place,
          IsDeclared (traceDocument mixedKeysSchema "root").registrations type place →
            IsRead (traceDocument mixedKeysSchema "root").registrations
              (Naming.tableName "root") type place) := by
  have hcompiled : (View.compileGraph .standard
      (walkDocument (empty "g") mixedKeysSchema "root").1).toOption.any
        (·.views.failures.isEmpty) := by
    decide +kernel
  obtain ⟨compiled, hcompiled, hcomplete⟩ := (Option.any_eq_true _ _).1 hcompiled
  have hfailures := List.isEmpty_iff.1 hcomplete
  have hwalk := eq_mk_of_snd_eq walkDocument_mixedKeys
  have hiff := takes_of_declared_iff hwalk (eq_ok_of_toOption hcompiled) hfailures
  exact ⟨compiled, eq_ok_of_toOption hcompiled, hfailures, hiff⟩

/-- The second key is lost, and no view fails. -/
theorem not_takes_mixedKeys :
    (walkDocument (empty "g") mixedKeysSchema "root").2 = .ok (some 0) ∧
    ∃ compiled, View.compileGraph .standard
        (walkDocument (empty "g") mixedKeysSchema "root").1 = .ok compiled ∧
      compiled.views.failures = [] ∧
      IsDeclared (traceDocument mixedKeysSchema "root").registrations .string ["foo_bar"] ∧
      ¬ compiled.Takes .string ["foo_bar"] := by
  have hdeclared :
      IsDeclared (traceDocument mixedKeysSchema "root").registrations .string ["foo_bar"] := by
    decide +kernel
  have hcompiled : (View.compileGraph .standard
      (walkDocument (empty "g") mixedKeysSchema "root").1).toOption.any fun compiled =>
        compiled.views.failures.isEmpty && decide (¬ compiled.Takes .string ["foo_bar"]) := by
    decide +kernel
  obtain ⟨compiled, hcompiled, hboth⟩ := (Option.any_eq_true _ _).1 hcompiled
  obtain ⟨hcomplete, hlost⟩ := Bool.and_eq_true_iff.1 hboth
  exact ⟨walkDocument_mixedKeys, compiled, eq_ok_of_toOption hcompiled,
    List.isEmpty_iff.1 hcomplete, hdeclared, of_decide_eq_true hlost⟩

end Graph

end DocumentViews

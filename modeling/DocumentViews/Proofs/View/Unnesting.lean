import Mathlib
import DocumentViews.Proofs.Plan.Rooted
import DocumentViews.Proofs.Schema.ReadingPlace
import DocumentViews.Proofs.Schema.Site
import DocumentViews.Proofs.View.Extraction

/-!
How often the path of a column goes on to elements. A scalar may be inside of
several arrays behind its last property key, and a path to it has to go on to
elements as often. The paths that are compiled do so once for each table with
a key on the way, not once for each array, and so exactly once behind the last
key wherever fragments do not share tables.
-/

namespace DocumentViews

open Schema Sql

namespace View

/-- How often a path goes on to elements behind a member. -/
def elementsBehind (key : String) (path : Option (List PathStep)) : ℕ :=
  ((path.getD []).dropWhile (· ≠ .member key)).count .elements

theorem count_elements_pathSteps (keys : List String) (last : Option String) :
    (pathSteps keys last).count .elements = keys.length := by
  induction keys with
  | nil => cases last <;> simp [pathSteps]
  | cons key keys ih =>
    have hcons : pathSteps (key :: keys) last =
        .member key :: .elements :: pathSteps keys last := rfl
    rw [hcons, List.count_cons_of_ne (by simp), List.count_cons_self, ih, List.length_cons]

/-- A path goes on to elements behind each key from the given one on. -/
theorem elementsBehind_pathSteps (key : String) (keys : List String) (last : Option String) :
    elementsBehind key (some (pathSteps keys last)) = (keys.dropWhile (· ≠ key)).length := by
  induction keys with
  | nil =>
    cases last with
    | none => rfl
    | some other =>
      by_cases hsame : other = key
      · simp [elementsBehind, pathSteps, hsame]
      · simp [elementsBehind, pathSteps, hsame]
  | cons first keys ih =>
    have hcons : pathSteps (first :: keys) last =
        .member first :: .elements :: pathSteps keys last := rfl
    by_cases hsame : first = key
    · have hstop : (pathSteps (first :: keys) last).dropWhile (· ≠ .member key) =
          pathSteps (first :: keys) last := by
        rw [hcons, List.dropWhile_cons_of_neg (by simp [hsame])]
      rw [elementsBehind, Option.getD_some, hstop, count_elements_pathSteps,
        List.dropWhile_cons_of_neg (by simp [hsame])]
    · have hskip : (pathSteps (first :: keys) last).dropWhile (· ≠ .member key) =
          (pathSteps keys last).dropWhile (· ≠ .member key) := by
        rw [hcons, List.dropWhile_cons_of_pos (by simp [hsame]),
          List.dropWhile_cons_of_pos (by simp)]
      rw [List.dropWhile_cons_of_pos (by simp [hsame]), ← ih, elementsBehind, elementsBehind,
        Option.getD_some, Option.getD_some, hskip]

/-- The extraction of a column goes on to elements behind each key of its table
from the given one on. A column without tables above it has no such keys. -/
theorem elementsBehind_extraction (kernel : Kernel) {column : Column}
    (h : column.parentPath = [] → column.keyPath = []) (key : String) :
    elementsBehind key (pathOf? (extraction kernel column)) =
      (column.keyPath.dropWhile (· ≠ key)).length := by
  by_cases hroot : column.parentPath = []
  · rw [pathOf?_extraction_of_nil kernel hroot, h hroot]
    rfl
  · rw [pathOf?_extraction kernel hroot, elementsBehind_pathSteps]

end View

namespace Graph

variable {graph : Graph}

/-- A planned column has the paths of its table. -/
theorem paths_of_mem_columns {table : Table} (hin : table ∈ graph.layout.tables) {column : Column}
    (hcolumn : column ∈ table.columns) :
    column.parentPath = table.parentPath ∧ column.keyPath = table.keyPath := by
  obtain ⟨index, -, namePath, keyPath, rfl⟩ := exists_fillTable_of_mem_layout hin
  obtain ⟨child, node, -, hgives⟩ := exists_node_of_mem_columns rfl hcolumn
  obtain ⟨type, -, rfl⟩ := Option.map_eq_some_iff.1 hgives
  rw [fillTable_parentPath, fillTable_keyPath]
  exact ⟨rfl, rfl⟩

/-- Only the root has no names on the way to it, and it has no keys either. -/
theorem keyPath_eq_nil (hacyclic : ¬ graph.HasCycle) {table : Table}
    (hin : table ∈ graph.layout.tables) (hnames : table.parentPath = []) : table.keyPath = [] := by
  rcases List.mem_cons.1 hin with rfl | hin
  · exact fillTable_keyPath graph _ 0 [] []
  · obtain ⟨index, hindex, rfl⟩ := List.mem_map.1 hin
    have hhead := (namePath_ancestry hacyclic (lt_of_mem_promotedOrder hindex)).1
    rw [tableAt, fillTable_parentPath] at hnames
    simp [hnames] at hhead

end Graph

namespace Schema

/-- A column of a table is that of a scalar fragment. -/
def Site.Gives (site : Site) (type : ScalarType) (table : Table) (column : Column) : Prop :=
  site.around.map Node.name = some table.name ∧
    column.field = (Naming.columnName site.name, type)

instance (site : Site) (type : ScalarType) (table : Table) (column : Column) :
    Decidable (site.Gives type table column) :=
  inferInstanceAs (Decidable (_ ∧ _))

/-- In a steady document the last key leads to one of its tables only. -/
theorem IsSteady.dropWhile_place {schema : Json} {label : String} {site : Site}
    (h : IsSteady (traceDocument schema label).registrations)
    (hcompletes : (traceDocument schema label).Completes) (hsite : site.IsIn schema label)
    (hlevels : 1 ≤ site.levels) {key : String} (hkey : site.place.getLast? = some key) :
    (site.place.dropWhile (· ≠ key)).length = 1 := by
  obtain ⟨front, hplace⟩ := List.getLast?_eq_some_iff.1 hkey
  have hfresh : ∀ other ∈ front, other ≠ key := by
    intro other hother heq
    rw [heq] at hother
    obtain ⟨before, between, rfl⟩ := List.append_of_mem hother
    -- The key would lead to its table at two places.
    have hfirst : site.place = before ++ key :: (between ++ [key]) := by
      simpa using hplace
    obtain ⟨first, hfirstIn, hkind, hname, hfirstPlace⟩ :=
      hsite.exists_table hcompletes hfirst (.inl (by simp))
    obtain ⟨second, hsecondIn, hkind', hname', hsecondPlace⟩ :=
      hsite.exists_table hcompletes hplace (.inr hlevels)
    have hsame := h.place_eq first hfirstIn second hsecondIn hkind hkind' (hname.trans hname'.symm)
    rw [hfirstPlace, hsecondPlace] at hsame
    have hlength := congrArg List.length hsame
    simp only [List.length_append, List.length_cons, List.length_nil] at hlength
    omega
  have hskip : (front ++ [key]).dropWhile (· ≠ key) = [key] := by
    rw [List.dropWhile_append_of_pos (by simpa using hfresh)]
    simp
  rw [hplace, hskip, List.length_singleton]

end Schema

namespace Graph

open View

variable {name label : String} {schema : Json} {graph : Graph} {result : Option Nat}

/-- The path of a planned column goes on to elements behind each key of the least
chain of its table from the given one on. -/
theorem Represents.elementsBehind_layout {root : Node} {rest : List Registration}
    (h : graph.Represents root rest) (hacyclic : ¬ graph.HasCycle) {table : Table}
    (hin : table ∈ graph.layout.tables) {column : Column} (hcolumn : column ∈ table.columns) :
    ∃ chain, IsLeastChain rest root.name table.name chain ∧ ∀ kernel key,
      elementsBehind key (pathOf? (extraction kernel column)) =
        ((chainKeys (⟨none, root, []⟩ :: rest) chain).dropWhile (· ≠ key)).length := by
  obtain ⟨hnames, hkeys⟩ := paths_of_mem_columns hin hcolumn
  obtain ⟨chain, hchain, hkeyPath⟩ := h.keyPath_layout [] hacyclic hin
  have hroot : column.parentPath = [] → column.keyPath = [] := by
    rw [hnames, hkeys]
    exact keyPath_eq_nil hacyclic hin
  refine ⟨chain, hchain, fun kernel key => ?_⟩
  rw [elementsBehind_extraction kernel hroot, hkeys, hkeyPath]

theorem completes_of_walkDocument
    (h : walkDocument (empty name) schema label = (graph, .ok result)) :
    (traceDocument schema label).Completes := by
  rw [walkDocument_eq_follow, follow] at h
  exact exists_map_eq_ok_iff.1 ⟨result, (Prod.mk.inj h).2⟩

/-- A scalar fragment inside of arrays has a column, and its path goes on to
elements behind the last property key once for each table with a key on the
least chain, from the one of that key on. That is often enough exactly when
there are as many of these tables as arrays. In a steady document there is one. -/
theorem levels_le_elementsBehind_iff
    (hwalk : walkDocument (empty name) schema label = (graph, .ok result))
    {plan : Plan} (hplan : graph.plan = .ok plan) {site : Site} (hsite : site.IsIn schema label)
    {type : ScalarType} (htype : site.scalarType? = some type) {key : String}
    (hkey : site.place.getLast? = some key) (hlevels : 1 ≤ site.levels) :
    (∃ table ∈ plan.tables, ∃ column ∈ table.columns, site.Gives type table column) ∧
      ∀ table ∈ plan.tables, ∀ column ∈ table.columns, site.Gives type table column →
        ∀ kernel,
          (site.levels ≤ elementsBehind key (pathOf? (extraction kernel column)) ↔
            ∃ chain, IsLeastChain (traceDocument schema label).registrations
                (Naming.tableName label) table.name chain ∧
              site.levels ≤ ((chainKeys (traceDocument schema label).registrations
                chain).dropWhile (· ≠ key)).length) ∧
          (IsSteady (traceDocument schema label).registrations →
            elementsBehind key (pathOf? (extraction kernel column)) = 1) := by
  obtain ⟨hnil, hacyclic, rfl⟩ := plan_eq_ok_iff.1 hplan
  obtain ⟨rest, hregistrations, hgraph⟩ := represents_of_walkDocument hwalk hnil
  have hcompletes := completes_of_walkDocument hwalk
  obtain ⟨outer, haround, registration, hin, habove, hkind, hname, hnone, hplace⟩ :=
    hsite.mem_registrations hcompletes htype
  rw [hsite.key_eq_none hlevels] at hnone
  have hrest : registration ∈ rest := by
    rw [hregistrations] at hin
    rcases List.mem_cons.1 hin with rfl | hrest
    · exact absurd habove.symm (Option.some_ne_none outer)
    · exact hrest
  constructor
  · have hregistered : (Naming.columnName site.name, type) ∈ columnsUnder rest outer.name :=
      mem_columnsUnder.2 ⟨registration, hrest, ⟨outer, habove, rfl⟩, hkind, hname⟩
    obtain ⟨table, htable, hsame, column, hcolumn, hfield⟩ :=
      hgraph.exists_column_of_mem_columnsUnder hacyclic hregistered
    have hgives : site.Gives type table column := by
      refine ⟨?_, hfield⟩
      rw [haround, Option.map_some, hsame]
    exact ⟨table, htable, column, hcolumn, hgives⟩
  · intro table htable column hcolumn hgives kernel
    obtain ⟨chain, hchain, hcount⟩ := hgraph.elementsBehind_layout hacyclic htable hcolumn
    have hpath := hchain.isPathTo
    rw [Node.name_table] at hchain
    rw [hcount, hregistrations, isLeastChain_cons_root]
    constructor
    · constructor
      · intro hle
        exact ⟨chain, hchain, hle⟩
      · intro hother
        obtain ⟨other, hother, hle⟩ := hother
        rwa [hother.eq tableId_injective hchain] at hle
    · intro hsteady
      have houter : outer.name = table.name := by
        have hsame := hgives.1
        rw [haround] at hsame
        exact Option.some.inj hsame
      rw [← houter] at hpath
      have hkeys := hgraph.toIsDocument.chainKeys_append_key
        (hsteady.chainKeys_eq hgraph.toIsDocument hpath) hrest habove
      rw [hnone, hplace, Option.toList_none, List.append_nil] at hkeys
      rw [hkeys]
      rw [← hregistrations] at hsteady
      exact hsteady.dropWhile_place hcompletes hsite hlevels hkey

/-- An array of arrays of numbers. -/
def matrixSchema : Json :=
  .obj [("$schema", .str "x"), ("properties", .obj [
    ("matrix", .obj [("items", .obj [("items", .obj [("type", .str "integer")]),
      ("type", .str "array")]), ("type", .str "array")])])]

/-- The numbers of the matrix. -/
def matrixSite : Site :=
  ⟨.obj [("type", .str "integer")], "matrix", none, some (.table (Naming.tableName "matrix") none),
    ["matrix"], 2⟩

theorem isIn_matrixSite : matrixSite.IsIn matrixSchema "root" := by
  have hwhole : Site.IsIn matrixSchema "root" ⟨matrixSchema, "root", some "root", none, [], 0⟩ :=
    .whole
  have hmatrix := hwhole.property rfl rfl List.mem_cons_self (by decide)
  exact (hmatrix.items rfl).items rfl

theorem walkDocument_matrix :
    (walkDocument (empty "s") matrixSchema "root").2 = .ok (some 0) := by
  apply eq_ok_of_toOption
  decide +kernel

theorem levels_le_elementsBehind_iff_matrixSchema :
    ∃ plan, (walkDocument (empty "s") matrixSchema "root").1.plan = .ok plan ∧
      matrixSite.IsIn matrixSchema "root" ∧
      matrixSite.scalarType? = some .integer ∧ matrixSite.place.getLast? = some "matrix" ∧
      1 ≤ matrixSite.levels ∧
      (∃ table ∈ plan.tables, ∃ column ∈ table.columns,
        matrixSite.Gives .integer table column) ∧
      ∀ table ∈ plan.tables, ∀ column ∈ table.columns, matrixSite.Gives .integer table column →
        ∀ kernel,
          (matrixSite.levels ≤ elementsBehind "matrix" (pathOf? (extraction kernel column)) ↔
            ∃ chain, IsLeastChain (traceDocument matrixSchema "root").registrations
                (Naming.tableName "root") table.name chain ∧
              matrixSite.levels ≤ ((chainKeys (traceDocument matrixSchema "root").registrations
                chain).dropWhile (· ≠ "matrix")).length) ∧
          (IsSteady (traceDocument matrixSchema "root").registrations →
            elementsBehind "matrix" (pathOf? (extraction kernel column)) = 1) := by
  have hplan : (walkDocument (empty "s") matrixSchema "root").1.plan.toOption.isSome := by
    decide +kernel
  obtain ⟨plan, hplan⟩ := Option.isSome_iff_exists.1 hplan
  have hwalk := eq_mk_of_snd_eq walkDocument_matrix
  have hlevels : 1 ≤ matrixSite.levels := by decide
  exact ⟨plan, eq_ok_of_toOption hplan, isIn_matrixSite, rfl, rfl, hlevels,
    levels_le_elementsBehind_iff hwalk (eq_ok_of_toOption hplan) isIn_matrixSite rfl rfl hlevels⟩

/-- The path of the numbers goes on to elements but once, which gives arrays. -/
theorem not_levels_le_elementsBehind_matrixSchema :
    (walkDocument (empty "s") matrixSchema "root").2 = .ok (some 0) ∧
    matrixSite.IsIn matrixSchema "root" ∧ matrixSite.scalarType? = some .integer ∧
      matrixSite.place.getLast? = some "matrix" ∧ 1 ≤ matrixSite.levels ∧
    ∃ plan, (walkDocument (empty "s") matrixSchema "root").1.plan = .ok plan ∧
      ∃ table ∈ plan.tables, ∃ column ∈ table.columns, matrixSite.Gives .integer table column ∧
        ∀ kernel,
          ¬ matrixSite.levels ≤ elementsBehind "matrix" (pathOf? (extraction kernel column)) := by
  have hplan : (walkDocument (empty "s") matrixSchema "root").1.plan.toOption.any fun plan =>
      decide (∃ table ∈ plan.tables, ∃ column ∈ table.columns,
        matrixSite.Gives .integer table column ∧
          column.parentPath ≠ [] ∧ column.keyPath = ["matrix"]) := by
    decide +kernel
  obtain ⟨plan, hplan, hfound⟩ := (Option.any_eq_true _ _).1 hplan
  obtain ⟨table, htable, column, hcolumn, hgives, hparent, hkeys⟩ := of_decide_eq_true hfound
  refine ⟨walkDocument_matrix, isIn_matrixSite, rfl, rfl, by decide, plan, eq_ok_of_toOption hplan,
    table, htable, column, hcolumn, hgives, fun kernel => ?_⟩
  rw [elementsBehind_extraction kernel (absurd · hparent), hkeys]
  decide

end Graph

end DocumentViews

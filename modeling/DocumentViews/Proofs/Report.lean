import Mathlib
import DocumentViews.Proofs.Schema.Typed
import DocumentViews.Proofs.View.Coverage
import DocumentViews.Report

/-!
What the report says about planned tables. It has a row for each of them in the
order of the plan, and the last cell of a row tells whether the table has its
view. Failures are looked up by the name of the table. So no failure is passed
over, but a table counts as failed as soon as another one of its name is. Where
planned tables have names of their own every row is right.
-/

namespace DocumentViews.Report

open View

/-- Lines as a text, each with its line end. -/
def lined (lines : List String) : String :=
  String.join (lines.map (· ++ "\n"))

/-- The lines before the first row. The last two are the head of the table. -/
def opening (graph : Graph) (plan : Plan) : List String :=
  ["# schema2view Report", "", sizes graph plan, "", "## Views", "",
    "| View | Bucket | Columns | Path | Status |", "|------|--------|---------|------|--------|"]

/-- The last cell of a row, up to the space before it. -/
def lastCell (row : String) : String :=
  String.ofList ((row.toList.reverse.drop 2).takeWhile (· != ' ')).reverse

/-- A table that has no view. -/
def Fails (settings : Settings) (table : Table) : Prop :=
  ∃ error, create settings table = .error error

/-- A row that begins with the name of its table and ends with what became of
the view. -/
structure Tells (settings : Settings) (row : String) (table : Table) : Prop where
  first_cell : ∃ cells, row = "| " ++ table.name ++ " | " ++ cells
  failed_iff : lastCell row = "failed" ↔ Fails settings table
  ok_iff : lastCell row = "ok" ↔ ¬ Fails settings table

variable {settings : Settings} {graph : Graph} {compiled : CompiledPlan} {table : Table}

theorem lined_cons (line : String) (rest : List String) :
    lined (line :: rest) = line ++ "\n" ++ lined rest := by
  rw [lined, List.map_cons, String.join_cons]
  rfl

theorem lined_eq {lines : List String} (h : lines ≠ []) :
    lined lines = String.intercalate "\n" lines ++ "\n" := by
  induction lines with
  | nil => exact absurd rfl h
  | cons line rest ih =>
    rw [lined_cons]
    by_cases hrest : rest = []
    · subst hrest
      rw [String.intercalate_singleton]
      exact String.append_empty
    · rw [ih hrest, String.intercalate_cons_of_ne_nil hrest]
      exact String.append_assoc.symm

/-- A section that is not left out begins with an empty line. -/
theorem head?_listing (heading : String) (items : List String) :
    listing heading items = [] ∨ (listing heading items).head? = some "" := by
  rw [listing]
  split
  · exact Or.inl rfl
  · exact Or.inr rfl

/-- The rows stand between the head of their table and an empty line or the end
of the report. -/
theorem text_eq (graph : Graph) (compiled : CompiledPlan) : ∃ closing,
    text graph compiled =
      lined (opening graph compiled.plan ++ compiled.plan.tables.map (row compiled) ++ closing) ∧
    (closing = [] ∨ closing.head? = some "") := by
  refine ⟨listing "Relationships" (compiled.plan.relationships.map relationshipLine) ++
    listing "Failures" (compiled.views.failures.map failureLine), ?_, ?_⟩
  · rw [← List.append_assoc, lined_eq (by simp [opening])]
    rfl
  · rcases head?_listing "Relationships" (compiled.plan.relationships.map relationshipLine)
      with hnone | hfirst
    · rw [hnone, List.nil_append]
      exact head?_listing _ _
    · exact Or.inr (by rw [List.head?_append, hfirst, Option.some_or])

theorem lastCell_eq {front word : String} (h : ' ' ∉ word.toList) :
    lastCell (front ++ " " ++ word ++ " |") = word := by
  have hword : ∀ c ∈ word.toList.reverse, (c != ' ') = true := by
    intro c hc
    rw [bne_iff_ne]
    rintro rfl
    exact h (List.mem_reverse.1 hc)
  have hreverse : (front ++ " " ++ word ++ " |").toList.reverse.drop 2 =
      word.toList.reverse ++ ' ' :: front.toList.reverse := by
    simp
  rw [lastCell, hreverse, List.takeWhile_append_of_pos hword, List.takeWhile_cons_of_neg (by simp),
    List.append_nil, List.reverse_reverse, String.ofList_toList]

/-- The name of the table is the first cell and its status the last. -/
theorem row_eq (compiled : CompiledPlan) (table : Table) : ∃ cells,
    row compiled table = "| " ++ table.name ++ " | " ++ cells ++ " " ++ status compiled table ++
      " |" := by
  refine ⟨table.entity ++ " | " ++ toString table.columns.length ++ " | " ++
    pathText table.parentPath ++ " |", ?_⟩
  have hbar : " | " = " |" ++ " " := rfl
  simp only [row, String.intercalate_cons_cons, String.intercalate_singleton, hbar,
    String.append_assoc]

theorem lastCell_row (compiled : CompiledPlan) (table : Table) :
    lastCell (row compiled table) = status compiled table := by
  obtain ⟨cells, hrow⟩ := row_eq compiled table
  rw [hrow]
  apply lastCell_eq
  rw [status]
  split
  · decide
  · decide

/-- Some table of the name has no view. -/
theorem isFailed_iff (hviews : compiled.views = Batch.ofTables settings compiled.plan.tables) :
    isFailed compiled table = true ↔
      ∃ other ∈ compiled.plan.tables, other.name = table.name ∧ Fails settings other := by
  rw [isFailed, List.any_eq_true, hviews]
  constructor
  · intro hsome
    obtain ⟨failure, hfailure, hname⟩ := hsome
    obtain ⟨other, hother, hsame, hcreate⟩ := Batch.exists_create_of_mem_failures hfailure
    exact ⟨other, hother, hsame.symm.trans (eq_of_beq hname), _, hcreate⟩
  · intro hsome
    obtain ⟨other, hother, hname, error, hcreate⟩ := hsome
    obtain ⟨failure, hfailure, hsame⟩ := Batch.exists_failure_of_create hother hcreate
    exact ⟨failure, hfailure, beq_iff_eq.2 (hsame.trans hname)⟩

/-- No failure is passed over. -/
theorem lastCell_row_of_fails
    (hviews : compiled.views = Batch.ofTables settings compiled.plan.tables)
    (hin : table ∈ compiled.plan.tables) (hfails : Fails settings table) :
    lastCell (row compiled table) = "failed" := by
  have hfailed := (isFailed_iff hviews).2 ⟨table, hin, rfl, hfails⟩
  rw [lastCell_row, status, if_pos hfailed]

/-- A row is right when all planned tables of the name fail or none does. -/
theorem tells_row_iff (hviews : compiled.views = Batch.ofTables settings compiled.plan.tables)
    (hin : table ∈ compiled.plan.tables) :
    Tells settings (row compiled table) table ↔
      ∀ other ∈ compiled.plan.tables, other.name = table.name → Fails settings other →
        Fails settings table := by
  constructor
  · intro htells other hother hname hfails
    apply htells.failed_iff.1
    rw [lastCell_row, status, if_pos ((isFailed_iff hviews).2 ⟨other, hother, hname, hfails⟩)]
  · intro hsame
    have hfailed : isFailed compiled table = true ↔ Fails settings table := by
      rw [isFailed_iff hviews]
      constructor
      · intro hsome
        obtain ⟨other, hother, hname, hfails⟩ := hsome
        exact hsame other hother hname hfails
      · exact fun hfails => ⟨table, hin, rfl, hfails⟩
    refine ⟨?_, ?_, ?_⟩
    · obtain ⟨cells, hrow⟩ := row_eq compiled table
      refine ⟨cells ++ " " ++ status compiled table ++ " |", ?_⟩
      rw [hrow]
      simp only [String.append_assoc]
    · rw [lastCell_row, status, ← hfailed]
      split
      · next h => simp [h]
      · next h => simp [h]
    · rw [lastCell_row, status, ← hfailed]
      split
      · next h => simp [h]
      · next h => simp [h]

/-- The report has a row for each planned table in the order of the plan. No row
hides a failure, and all rows are right exactly when no table that has its view
is called like one that has none. -/
theorem rows_tell_iff (hcompiled : compileGraph settings graph = .ok compiled) :
    (∃ closing, text graph compiled =
        lined (opening graph compiled.plan ++ compiled.plan.tables.map (row compiled) ++ closing) ∧
      (closing = [] ∨ closing.head? = some "")) ∧
    (∀ table ∈ compiled.plan.tables, Fails settings table →
      lastCell (row compiled table) = "failed") ∧
    ((∀ table ∈ compiled.plan.tables, Tells settings (row compiled table) table) ↔
      ∀ first ∈ compiled.plan.tables, ∀ second ∈ compiled.plan.tables,
        first.name = second.name → Fails settings first → Fails settings second) := by
  obtain ⟨-, hviews⟩ := compileGraph_eq_ok_iff.1 hcompiled
  refine ⟨text_eq graph compiled, fun table hin => lastCell_row_of_fails hviews hin, ?_⟩
  constructor
  · intro htell first hfirst second hsecond hname
    exact (tells_row_iff hviews hsecond).1 (htell second hsecond) first hfirst hname
  · intro hsame table hin
    apply (tells_row_iff hviews hin).2
    intro other hother
    exact hsame other hother table hin

/-- Tables of walked documents have names of their own, so all rows are right. -/
theorem tells_of_walkDocuments {name : String} {documents : List (Json × String)}
    (hcompiled : compileGraph settings ((Graph.empty name).walkDocuments documents) = .ok compiled)
    (hin : table ∈ compiled.plan.tables) : Tells settings (row compiled table) table := by
  obtain ⟨hplan, hviews⟩ := compileGraph_eq_ok_iff.1 hcompiled
  have hnames := ((Graph.isTyped_empty name).walkDocuments documents).names_nodup hplan
  apply (tells_row_iff hviews hin).2
  intro other hother hname hfails
  rwa [← List.inj_on_of_nodup_map hnames hother hin hname]

instance (settings : Settings) (table : Table) : Decidable (Fails settings table) :=
  match hcreate : create settings table with
  | .error error => .isTrue ⟨error, hcreate⟩
  | .ok _ => .isFalse fun ⟨_, herror⟩ => nomatch hcreate.symm.trans herror

/-- A table without columns around another one of its name that has a column. A
note in the payload of the inner one keeps the two apart. -/
def namesakes : Graph :=
  let outer := (Graph.empty "g").add (.table "as" none) none []
  let inner := outer.1.add (.make .entity "as" (some "a") [("note", .str "inner")]) (some 0) []
  (inner.1.add (.field "x" (some "x") .string) (some 1) []).1

theorem rows_tell_iff_namesakes :
    ∃ compiled, compileGraph .standard namesakes = .ok compiled ∧
      (∃ closing, text namesakes compiled = lined (opening namesakes compiled.plan ++
          compiled.plan.tables.map (row compiled) ++ closing) ∧
        (closing = [] ∨ closing.head? = some "")) ∧
      (∀ table ∈ compiled.plan.tables, Fails .standard table →
        lastCell (row compiled table) = "failed") ∧
      ((∀ table ∈ compiled.plan.tables, Tells .standard (row compiled table) table) ↔
        ∀ first ∈ compiled.plan.tables, ∀ second ∈ compiled.plan.tables,
          first.name = second.name → Fails .standard first → Fails .standard second) := by
  have hcompiled : (compileGraph .standard namesakes).toOption.isSome := by decide +kernel
  obtain ⟨compiled, hcompiled⟩ := Option.isSome_iff_exists.1 hcompiled
  exact ⟨compiled, eq_ok_of_toOption hcompiled, rows_tell_iff (eq_ok_of_toOption hcompiled)⟩

/-- The inner table has its view, and its row says that it failed. -/
theorem not_tells_namesakes :
    ∃ compiled, compileGraph .standard namesakes = .ok compiled ∧
      ∃ table ∈ compiled.plan.tables, ¬ Fails .standard table ∧
        lastCell (row compiled table) = "failed" ∧
        ¬ Tells .standard (row compiled table) table := by
  have hcompiled : (compileGraph .standard namesakes).toOption.any fun compiled =>
      decide (∃ table ∈ compiled.plan.tables, ¬ Fails .standard table ∧
        lastCell (row compiled table) = "failed") := by
    decide +kernel
  obtain ⟨compiled, hcompiled, hfound⟩ := (Option.any_eq_true _ _).1 hcompiled
  obtain ⟨table, hin, hview, hcell⟩ := of_decide_eq_true hfound
  refine ⟨compiled, eq_ok_of_toOption hcompiled, table, hin, hview, hcell, fun htells => ?_⟩
  exact hview (htells.failed_iff.1 hcell)

end DocumentViews.Report

import Mathlib
import DocumentViews.Artifact.Basic
import DocumentViews.Proofs.Schema.Typed
import DocumentViews.Proofs.View.Coverage
import DocumentViews.Proofs.View.Selection

/-!
What stands in the text of the views beside comments. The header and the notes
on skipped tables are comments to the end of the line, as long as the names in
them stay on one line, and then the text consists of the statements and nothing
else. What follows a line end in the name of the graph is read like any other
part of the text.
-/

namespace DocumentViews

namespace Sql

open Lexeme

/-- Whether a text stays on one line. -/
def isLine (text : String) : Bool :=
  text.toList.all (!endsLine ·)

theorem isLine_append {first second : String} :
    isLine (first ++ second) = true ↔ isLine first = true ∧ isLine second = true := by
  rw [isLine, String.toList_append, List.all_append, Bool.and_eq_true]
  rfl

theorem isLine_of_isSnake {name : String} (h : Naming.IsSnake name.toList) :
    isLine name = true := by
  have hends : ∀ c, endsLine c = true → Naming.isNameChar c = false := by
    intro c hc
    simp only [endsLine, Bool.or_eq_true, beq_iff_eq] at hc
    rcases hc with rfl | rfl
    · rfl
    · rfl
  refine List.all_eq_true.2 fun c hc => ?_
  cases hend : endsLine c with
  | false => rfl
  | true =>
    have hname := h.isNameChar c hc
    rw [hends c hend] at hname
    exact Bool.noConfusion hname

/-- A comment to the end of its line holds no lexeme. -/
theorem spells_comment {text : String} (h : isLine text = true) :
    Spells ("--" ++ text ++ "\n") [] := by
  intro rest _
  have htext : ∀ c ∈ '-' :: text.toList, (!endsLine c) = true :=
    List.forall_mem_cons.2 ⟨rfl, List.all_eq_true.1 h⟩
  have hread : Lexeme.read '-' ('-' :: text.toList ++ '\n' :: rest) =
      some (none, '\n' :: rest) := by
    have hstop : ('\n' :: rest).dropWhile (!endsLine ·) = '\n' :: rest := rfl
    have hcomment : startsLineComment '-' ('-' :: text.toList ++ '\n' :: rest) = true := rfl
    rw [Lexeme.read, if_neg (by decide), if_pos hcomment, List.dropWhile_append_of_pos htext, hstop]
  have hline : Lexeme.read '\n' rest = some (none, rest) := rfl
  have hchars : ("--" ++ text ++ "\n").toList ++ rest =
      '-' :: ('-' :: text.toList ++ '\n' :: rest) := by
    simp
  rw [hchars, lexemes_cons hread, lexemes_cons hline]
  rfl

/-- Whether a text reads as the given lexemes, whatever follows it. -/
def ReadsAs (text : String) (found : List Lexeme) : Prop :=
  ∀ rest, lexemes (text.toList ++ rest) = found ++ lexemes rest

theorem Spells.readsAs {text : String} {slots : List Slot} (h : Spells text slots) :
    ReadsAs text (slots.map Slot.lexeme) :=
  fun rest => h rest trivial

namespace ReadsAs

variable {first second : String} {found more : List Lexeme}

theorem lexemes_eq (h : ReadsAs first found) : lexemes first.toList = found := by
  simpa [lexemes_nil] using h []

theorem append (hfirst : ReadsAs first found) (hsecond : ReadsAs second more) :
    ReadsAs (first ++ second) (found ++ more) := by
  intro rest
  rw [String.toList_append, List.append_assoc, hfirst, hsecond, List.append_assoc]

variable {α : Type} {text : α → String} {inside : α → List Lexeme} {items : List α}

theorem join (h : ∀ item ∈ items, ReadsAs (text item) (inside item)) :
    ReadsAs (String.join (items.map text)) (items.flatMap inside) := by
  induction items with
  | nil => exact (spells_space "" rfl).readsAs
  | cons item rest ih =>
    obtain ⟨hitem, hrest⟩ := List.forall_mem_cons.1 h
    rw [List.map_cons, String.join_cons]
    exact hitem.append (ih hrest)

/-- What stands between texts adds nothing if it holds no lexeme. -/
theorem intercalate {separator : String} (hseparator : ReadsAs separator [])
    (h : ∀ item ∈ items, ReadsAs (text item) (inside item)) :
    ReadsAs (separator.intercalate (items.map text)) (items.flatMap inside) := by
  induction items with
  | nil => exact (spells_space "" rfl).readsAs
  | cons item rest ih =>
    obtain ⟨hitem, hrest⟩ := List.forall_mem_cons.1 h
    cases rest with
    | nil => simpa using hitem
    | cons next rest =>
      rw [List.map_cons, String.intercalate_cons_of_ne_nil (by simp), List.flatMap_cons,
        ← List.append_nil (inside item)]
      exact (hitem.append hseparator).append (ih hrest)

end ReadsAs

end Sql

namespace View

open Sql

variable {settings : Settings}

/-- A failure names the table, and the name that the result would have twice. -/
theorem create_eq_error {table : Table} {error : Error} (h : create settings table = .error error) :
    error = .noColumns table.name ∨
      ∃ name ∈ outputNames settings.kernel table, error = .duplicateColumn table.name name := by
  unfold create select at h
  split at h
  · exact Or.inl (Except.error.inj h).symm
  · split at h
    · next name hname =>
      have hin := (firstRepeated_nil_eq_some_iff.1 hname).mem
      exact Or.inr ⟨name, hin, (Except.error.inj h).symm⟩
    · simp [Except.map] at h

theorem isLine_message_noColumns {table : String} :
    isLine (Error.noColumns table).message = true ↔ isLine table = true := by
  simp only [Error.message, isLine_append]
  exact ⟨fun h => h.1.2, fun h => ⟨⟨rfl, h⟩, rfl⟩⟩

theorem isLine_message_duplicateColumn {table column : String} :
    isLine (Error.duplicateColumn table column).message = true ↔
      isLine table = true ∧ isLine column = true := by
  simp only [Error.message, isLine_append]
  exact ⟨fun h => ⟨h.1.1.1.2, h.1.2⟩, fun h => ⟨⟨⟨⟨rfl, h.1⟩, rfl⟩, h.2⟩, rfl⟩⟩

/-- The message of a failure holds the name of its table. -/
theorem Batch.isLine_name_of_mem_failures {tables : List Table} {failure : Failure}
    (h : failure ∈ (ofTables settings tables).failures)
    (hmessage : isLine failure.error.message = true) : isLine failure.name = true := by
  obtain ⟨table, -, hname, hcreate⟩ := exists_create_of_mem_failures h
  rw [hname]
  obtain herror | ⟨name, -, herror⟩ := create_eq_error hcreate
  · rw [herror, isLine_message_noColumns] at hmessage
    exact hmessage
  · rw [herror, isLine_message_duplicateColumn] at hmessage
    exact hmessage.1

/-- Where the names of tables, columns and metadata are lines, so are all
messages. -/
theorem Batch.isLine_message_of_mem_failures {tables : List Table}
    (hmetadata : ∀ name ∈ settings.kernel.metadata, isLine name = true)
    (htables : ∀ table ∈ tables, isLine table.name = true ∧
      ∀ column ∈ table.columns, isLine column.name = true)
    {failure : Failure} (h : failure ∈ (ofTables settings tables).failures) :
    isLine failure.error.message = true := by
  obtain ⟨table, htable, -, hcreate⟩ := exists_create_of_mem_failures h
  obtain ⟨hname, hcolumns⟩ := htables table htable
  obtain herror | ⟨name, hin, herror⟩ := create_eq_error hcreate
  · rw [herror, isLine_message_noColumns]
    exact hname
  · rw [herror, isLine_message_duplicateColumn]
    refine ⟨hname, ?_⟩
    rcases List.mem_append.1 hin with hin | hin
    · obtain ⟨column, hcolumn, rfl⟩ := List.mem_map.1 hin
      unfold outputName
      split
      · exact isLine_append.2 ⟨rfl, hcolumns column hcolumn⟩
      · exact hcolumns column hcolumn
    · exact hmetadata name hin

/-- The statements of a batch are all that its text holds. -/
theorem Batch.readsAs_sql (settings : Settings) (tables : List Table) :
    ReadsAs (ofTables settings tables).sql
      ((ofTables settings tables).views.flatMap (lexemes ·.sql.toList)) := by
  have hline : ReadsAs "\n" [] := (spells_space "\n" rfl).readsAs
  rw [Batch.sql]
  refine ReadsAs.intercalate hline fun view hview => ?_
  obtain ⟨table, -, hcreate⟩ := exists_create_of_mem_views hview
  have hsql := (spells_create hcreate).readsAs
  rw [hsql.lexemes_eq, ← List.append_nil (List.map _ _)]
  exact hsql.append hline

end View

namespace Graph

open Sql

variable {graph : Graph}

theorem IsTyped.isLine_name (h : graph.IsTyped) {index : Nat} {node : Node}
    (hnode : graph.node? index = some node) : isLine node.name = true :=
  isLine_of_isSnake (h.isSnake node (List.mem_of_getElem? hnode))

theorem IsTyped.isLine_layout (h : graph.IsTyped) {table : Table}
    (hin : table ∈ graph.layout.tables) :
    isLine table.name = true ∧ ∀ column ∈ table.columns, isLine column.name = true := by
  obtain ⟨index, -, namePath, keyPath, rfl⟩ := exists_fillTable_of_mem_layout hin
  constructor
  · rw [fillTable_name]
    cases hnode : graph.node? index with
    | none =>
      rw [nameOf, hnode]
      rfl
    | some node =>
      rw [nameOf_eq hnode]
      exact h.isLine_name hnode
  · intro column hcolumn
    obtain ⟨child, node, hnode, hgives⟩ := exists_node_of_mem_columns rfl hcolumn
    obtain ⟨type, -, rfl⟩ := Option.map_eq_some_iff.1 hgives
    exact h.isLine_name hnode

end Graph

namespace Artifact

open Sql View

/-- What stands before the statements. -/
def viewsHeader (graphName : String) : String :=
  "-- views for system '" ++ graphName ++ "'\n\n"

theorem viewsHeader_eq (graphName : String) : viewsHeader graphName =
    "--" ++ (" views for system '" ++ graphName ++ "'") ++ "\n" ++ "\n" := by
  have hopen : "-- views for system '" = "--" ++ " views for system '" := rfl
  have hclose : "'\n\n" = "'" ++ ("\n" ++ "\n") := rfl
  unfold viewsHeader
  rw [hopen, hclose]
  simp only [String.append_assoc]

theorem skippedNote_eq (failure : Failure) : skippedNote failure =
    "\n" ++ ("--" ++ (" skipped " ++ failure.name ++ ": " ++ failure.error.message) ++ "\n") := by
  have hopen : "\n-- skipped " = "\n" ++ ("--" ++ " skipped ") := rfl
  unfold skippedNote
  rw [hopen]
  simp only [String.append_assoc]

theorem spells_viewsHeader {graphName : String} (h : isLine graphName = true) :
    Spells (viewsHeader graphName) [] := by
  rw [viewsHeader_eq]
  refine (spells_comment ?_).append (spells_space "\n" rfl)
  simp only [isLine_append, h, and_true]
  exact ⟨rfl, rfl⟩

theorem spells_skippedNote {failure : Failure} (hname : isLine failure.name = true)
    (hmessage : isLine failure.error.message = true) : Spells (skippedNote failure) [] := by
  rw [skippedNote_eq]
  refine (spells_space "\n" rfl).append (spells_comment ?_)
  simp only [isLine_append, hname, hmessage, and_true]
  exact ⟨rfl, rfl⟩

variable {settings : Settings} {graph : Graph} {compiled : CompiledPlan}

/-- Beside its header the text holds the statements and nothing else, when the
notes are lines. -/
theorem readsAs_viewsText (hcompiled : compileGraph settings graph = .ok compiled)
    (hnotes : ∀ failure ∈ compiled.views.failures, isLine failure.error.message = true)
    {slots : List Slot} (hheader : Spells (viewsHeader graph.name) slots) :
    ReadsAs (viewsText compiled)
      (slots.map Slot.lexeme ++ compiled.views.views.flatMap (lexemes ·.sql.toList)) := by
  obtain ⟨hplan, hviews⟩ := compileGraph_eq_ok_iff.1 hcompiled
  obtain ⟨-, -, hlayout⟩ := Graph.plan_eq_ok_iff.1 hplan
  have hname : compiled.plan.graphName = graph.name := by
    rw [hlayout]
    rfl
  rw [← hname] at hheader
  have hstatements := Batch.readsAs_sql settings compiled.plan.tables
  rw [← hviews] at hstatements
  have hskipped : ReadsAs (String.join (compiled.views.failures.map skippedNote))
      (compiled.views.failures.flatMap fun _ => []) := by
    refine ReadsAs.join fun failure hfailure => ?_
    have hmessage := hnotes failure hfailure
    rw [hviews] at hfailure
    exact (spells_skippedNote (Batch.isLine_name_of_mem_failures hfailure hmessage)
      hmessage).readsAs
  rw [List.flatMap_eq_nil_iff.2 fun _ _ => rfl] at hskipped
  have htext := (hheader.readsAs.append hstatements).append hskipped
  rwa [List.append_nil] at htext

/-- The text of the views holds their statements and nothing else, and header
and notes are comments, when no name in them has a line end. -/
theorem lexemes_viewsText (hcompiled : compileGraph settings graph = .ok compiled)
    (hname : isLine graph.name = true)
    (hnotes : ∀ failure ∈ compiled.views.failures, isLine failure.error.message = true) :
    lexemes (viewsText compiled).toList = compiled.views.views.flatMap (lexemes ·.sql.toList) ∧
      Spells (viewsHeader graph.name) [] ∧
      ∀ failure ∈ compiled.views.failures, Spells (skippedNote failure) [] := by
  have hheader := spells_viewsHeader hname
  refine ⟨(readsAs_viewsText hcompiled hnotes hheader).lexemes_eq, hheader,
    fun failure hfailure => ?_⟩
  have hmessage := hnotes failure hfailure
  rw [(compileGraph_eq_ok_iff.1 hcompiled).2] at hfailure
  exact spells_skippedNote (Batch.isLine_name_of_mem_failures hfailure hmessage) hmessage

/-- A table with a column in a root without any, which has no view. The name of
the graph holds a quote, a semicolon and the beginnings of comments. -/
def quotedNameGraph : Graph :=
  (Schema.walkDocument (Graph.empty "it's; /* --") (.obj [("$schema", .str "x"),
    ("properties", .obj [("a", .obj [("properties", .obj [
      ("x", .obj [("type", .str "string")])])])])]) "root").1

theorem lexemes_viewsText_quotedNameGraph :
    isLine quotedNameGraph.name = true ∧
      ∃ compiled, compileGraph .standard quotedNameGraph = .ok compiled ∧
        compiled.views.views.length = 1 ∧ compiled.views.failures.length = 1 ∧
        (∀ failure ∈ compiled.views.failures, isLine failure.error.message = true) ∧
        lexemes (viewsText compiled).toList =
          compiled.views.views.flatMap (lexemes ·.sql.toList) ∧
        Spells (viewsHeader quotedNameGraph.name) [] ∧
        ∀ failure ∈ compiled.views.failures, Spells (skippedNote failure) [] := by
  have hname : isLine quotedNameGraph.name = true := by decide +kernel
  have hcompiled : (compileGraph .standard quotedNameGraph).toOption.any fun compiled =>
      decide (compiled.views.views.length = 1 ∧ compiled.views.failures.length = 1 ∧
        ∀ failure ∈ compiled.views.failures, isLine failure.error.message = true) := by
    decide +kernel
  obtain ⟨compiled, hcompiled, hfound⟩ := (Option.any_eq_true _ _).1 hcompiled
  obtain ⟨hviews, hfailures, hnotes⟩ := of_decide_eq_true hfound
  exact ⟨hname, compiled, eq_ok_of_toOption hcompiled, hviews, hfailures, hnotes,
    lexemes_viewsText (eq_ok_of_toOption hcompiled) hname hnotes⟩

/-- The names of walked documents have no line ends, so only those of the graph
and of the metadata matter. -/
theorem lexemes_viewsText_of_walkDocuments {name : String} {documents : List (Json × String)}
    (hcompiled : compileGraph settings ((Graph.empty name).walkDocuments documents) = .ok compiled)
    (hname : isLine name = true)
    (hmetadata : ∀ column ∈ settings.kernel.metadata, isLine column = true) :
    lexemes (viewsText compiled).toList =
      compiled.views.views.flatMap (lexemes ·.sql.toList) := by
  have htyped := (Graph.isTyped_empty name).walkDocuments documents
  obtain ⟨hplan, hviews⟩ := compileGraph_eq_ok_iff.1 hcompiled
  obtain ⟨-, -, hlayout⟩ := Graph.plan_eq_ok_iff.1 hplan
  have hnotes : ∀ failure ∈ compiled.views.failures, isLine failure.error.message = true := by
    intro failure hfailure
    rw [hviews, hlayout] at hfailure
    exact Batch.isLine_message_of_mem_failures hmetadata (fun _ => htyped.isLine_layout) hfailure
  have hheader : Spells (viewsHeader ((Graph.empty name).walkDocuments documents).name) [] := by
    rw [Graph.name_walkDocuments]
    exact spells_viewsHeader hname
  exact (readsAs_viewsText hcompiled hnotes hheader).lexemes_eq

/-- Whatever stands behind a line end in the name of the graph is read with the
statements. -/
theorem spells_viewsHeader_of_lineEnd {before sql : String} {slots : List Slot}
    (hbefore : isLine before = true) (hsql : Spells sql slots) :
    Spells (viewsHeader (before ++ "\n" ++ sql ++ "--")) slots := by
  have hfirst : Spells ("--" ++ (" views for system '" ++ before) ++ "\n") [] := by
    apply spells_comment
    simp only [isLine_append, hbefore, and_true]
    rfl
  have hlast : Spells ("--" ++ "'" ++ "\n" ++ "\n") [] :=
    (spells_comment rfl).append (spells_space "\n" rfl)
  have hheader : viewsHeader (before ++ "\n" ++ sql ++ "--") =
      "--" ++ (" views for system '" ++ before) ++ "\n" ++ sql ++
        ("--" ++ "'" ++ "\n" ++ "\n") := by
    rw [viewsHeader_eq]
    simp only [String.append_assoc]
  rw [hheader, ← List.append_nil slots]
  exact (hfirst.append hsql).append hlast

/-- A table with a column, in a graph with a statement behind the first line of
its name. -/
def brokenNameGraph : Graph :=
  (Schema.walkDocument (Graph.empty "s\nDROP TABLE kernel; --") (.obj [("$schema", .str "x"),
    ("properties", .obj [("a", .obj [("type", .str "string")])])]) "root").1

theorem lexemes_viewsText_brokenNameGraph :
    ∃ compiled, compileGraph .standard brokenNameGraph = .ok compiled ∧
      lexemes (viewsText compiled).toList =
        [.word "DROP", .word "TABLE", .word "kernel", .mark ';'] ++
          compiled.views.views.flatMap (lexemes ·.sql.toList) ∧
      lexemes (viewsText compiled).toList ≠
        compiled.views.views.flatMap (lexemes ·.sql.toList) := by
  have hcompiled : (compileGraph .standard brokenNameGraph).toOption.any
      (·.views.failures.isEmpty) := by
    decide +kernel
  obtain ⟨compiled, hcompiled, hcomplete⟩ := (Option.any_eq_true _ _).1 hcompiled
  have hnotes : ∀ failure ∈ compiled.views.failures, isLine failure.error.message = true := by
    simp [List.isEmpty_iff.1 hcomplete]
  have hsql : Spells "DROP TABLE kernel; "
      [.word "DROP", .word "TABLE", .word "kernel", .mark ';'] :=
    (((spells_keyword "DROP" " " rfl rfl rfl).append (spells_keyword "TABLE" " " rfl rfl rfl)).append
      ((spellsApart_word "kernel" rfl).append (spells_mark ';' rfl) rfl)).append
        (spells_space " " rfl)
  have hname : brokenNameGraph.name = "s" ++ "\n" ++ "DROP TABLE kernel; " ++ "--" := by
    decide +kernel
  have hbefore : isLine "s" = true := rfl
  have hheader := spells_viewsHeader_of_lineEnd hbefore hsql
  rw [← hname] at hheader
  have hlexemes := (readsAs_viewsText (eq_ok_of_toOption hcompiled) hnotes hheader).lexemes_eq
  refine ⟨compiled, eq_ok_of_toOption hcompiled, hlexemes, fun hsame => ?_⟩
  rw [hlexemes] at hsame
  have hlength := congrArg List.length hsame
  simp only [List.length_append, List.length_map, List.length_cons] at hlength
  omega

end Artifact

end DocumentViews

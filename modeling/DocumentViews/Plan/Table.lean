import DocumentViews.ScalarType

/-!
Planned tables and their columns. A table knows the display names from the
root down to itself and the keys that lead to its documents, and hands both on
to its columns. A column stands in a table once for each identifier.
-/

namespace DocumentViews

structure Column where
  id : String
  name : String
  type : ScalarType
  /-- The key of the value. An element of a collection has none. -/
  key : Option String
  parentPath : List String
  keyPath : List String

structure Table where
  id : String
  name : String
  columns : List Column
  parentPath : List String
  keyPath : List String

namespace Table

/-- The name of the data set that the rows belong to. -/
def entity (table : Table) : String :=
  table.parentPath.head?.getD table.name

def hasColumn (table : Table) (id : String) : Bool :=
  table.columns.any (·.id == id)

/-- Appends a column unless its identifier is there. -/
def push (table : Table) (column : Column) : Table :=
  if table.hasColumn column.id then table
  else { table with columns := table.columns ++ [column] }

/-- Whether a table replaces one of the same identifier: it has more columns,
or as many and a longer path. -/
def betters (table other : Table) : Bool :=
  decide (other.columns.length < table.columns.length) ||
    (table.columns.length == other.columns.length &&
      decide (other.parentPath.length < table.parentPath.length))

end Table

end DocumentViews

import DocumentViews.Naming.SnakeCase
import DocumentViews.Naming.Plural

/-!
Display names. A table is named by the plural of its key in snake case, a
column by the key in snake case, and a key without letters and digits gets a
name of last resort.
-/

namespace DocumentViews.Naming

def tableName (key : String) : String :=
  let name := snakeCase key
  if name = "" then "tables" else plural name

def columnName (key : String) : String :=
  let name := snakeCase key
  if name = "" then "field" else name

end DocumentViews.Naming

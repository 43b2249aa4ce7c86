import DocumentViews.View.Select

/-!
The statements that create and drop views, plain or materialized.
-/

namespace DocumentViews.View

open Sql

/-- What all views of a run have in common. -/
structure Settings where
  kernel : Kernel
  materialized : Bool

/-- Views over the standard kernel. -/
def Settings.standard : Settings := ⟨Kernel.standard, false⟩

def Settings.viewWord (settings : Settings) : String :=
  if settings.materialized then "MATERIALIZED VIEW" else "VIEW"

/-- The statement that creates the view of a table. -/
def create (settings : Settings) (table : Table) : Except Error String :=
  (select settings.kernel table).map fun query =>
    "CREATE " ++ settings.viewWord ++ " IF NOT EXISTS " ++ identifier table.name ++ " AS\n" ++
      query ++ ";"

/-- The statement that drops a view. -/
def drop (settings : Settings) (name : String) : String :=
  "DROP " ++ settings.viewWord ++ " IF EXISTS " ++ identifier name ++ " CASCADE;"

end DocumentViews.View

/-!
The types of scalar values, with their names in schemas and in SQL.
-/

namespace DocumentViews

inductive ScalarType where
  | integer
  | string
  | boolean
  | number
  deriving DecidableEq

namespace ScalarType

/-- The name in a schema. -/
def name : ScalarType → String
  | integer => "integer"
  | string => "string"
  | boolean => "boolean"
  | number => "number"

def ofName? (name : String) : Option ScalarType :=
  [integer, string, boolean, number].find? (·.name = name)

/-- The type that values are cast to. -/
def sqlName : ScalarType → String
  | integer => "INTEGER"
  | string => "TEXT"
  | boolean => "BOOLEAN"
  | number => "NUMERIC"

theorem ofName?_name (type : ScalarType) : ofName? type.name = some type := by
  cases type <;> decide

theorem ofName?_eq_some_iff {name : String} {type : ScalarType} :
    ofName? name = some type ↔ name = type.name := by
  refine ⟨fun h => ?_, fun h => h ▸ ofName?_name type⟩
  have := List.find?_some h
  simpa [eq_comm] using this

end ScalarType

end DocumentViews

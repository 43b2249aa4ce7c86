import DocumentViews.Json.Printer
import DocumentViews.Schema.Kind

/-!
What a walk over a schema can stumble on, and how it is said. Every error
names the place under which the offending fragment was met.
-/

namespace DocumentViews.Schema

inductive Error where
  /-- The fragment is of no kind. -/
  | rejected (name : String) (rejection : Rejection)
  /-- A fragment that needs a table around it has none. -/
  | orphan (name : String) (label : String)
  /-- The fragment has no content. -/
  | void (name : String)

def Rejection.message : Rejection → String
  | notAnObject found => "expected a JSON object, found " ++ found.compact
  | propertiesNotAnObject => "'properties' must be an object"
  | noItems => "array schema has no 'items'"
  | unsupported type =>
    let found := match type with
      | none => "no 'type'"
      | some value => "type " ++ value.compact
    "no 'properties', not an array and not a scalar (" ++ found ++ ")"

def Error.message : Error → String
  | rejected name rejection =>
    "fragment '" ++ name ++ "' is not a supported schema kind: " ++ rejection.message
  | orphan name label =>
    label ++ " fragment '" ++ name ++ "' has no parent; only object schemas can root a walk"
  | void name => "schema for '" ++ name ++ "' is empty"

end DocumentViews.Schema

import DocumentViews.Digest.Sha256
import DocumentViews.Json.Printer
import DocumentViews.ScalarType

/-!
Nodes of a graph. An entity becomes a table and a component becomes a column.
A node is identified by its name and a hash of its attributes, so fragments of
one name and one shape are the same node wherever they stand. The key under
which a fragment stood is kept beside and takes no part in the identity.
-/

namespace DocumentViews

inductive NodeKind where
  | entity
  | component (type : ScalarType)
  deriving DecidableEq

namespace NodeKind

def typeName : NodeKind → String
  | entity => "entity"
  | component _ => "component"

def subtypeName : NodeKind → String
  | entity => "tables"
  | component _ => "field"

def fieldType? : NodeKind → Option ScalarType
  | entity => none
  | component type => some type

def isEntity (kind : NodeKind) : Bool :=
  kind.fieldType?.isNone

end NodeKind

/-- How many digits of the hash an identifier keeps. -/
def hashDigits : Nat := 16

/-- The first digits of the hash of attributes. -/
def contentHash (attributes : Json.Object) : String :=
  String.ofList ((Sha256.hexHash (Json.obj attributes).compact).toList.take hashDigits)

/-- The attributes that are hashed. The kind overrides the payload. -/
def nodeAttributes (kind : NodeKind) (payload : Json.Object) : Json.Object :=
  let typed := (payload.insert "node_type" (.str kind.typeName)).insert "sub_type"
    (.str kind.subtypeName)
  match kind.fieldType? with
  | none => typed
  | some type => typed.insert "field_type" (.str type.name)

def nodeIdentifier (kind : NodeKind) (name : String) (payload : Json.Object) : String :=
  name ++ "-" ++ contentHash (nodeAttributes kind payload)

structure Node where
  kind : NodeKind
  /-- The display name. -/
  name : String
  /-- The key under which the fragment stood, if it had one. -/
  key : Option String
  payload : Json.Object
  id : String
  id_eq : id = nodeIdentifier kind name payload

namespace Node

def make (kind : NodeKind) (name : String) (key : Option String) (payload : Json.Object) : Node :=
  ⟨kind, name, key, payload, nodeIdentifier kind name payload, rfl⟩

/-- The node of a compound fragment. -/
def table (name : String) (key : Option String) : Node :=
  make .entity name key []

/-- The node of a scalar fragment. -/
def field (name : String) (key : Option String) (type : ScalarType) : Node :=
  make (.component type) name key []

def attributes (node : Node) : Json.Object :=
  nodeAttributes node.kind node.payload

def isEntity (node : Node) : Bool :=
  node.kind.isEntity

end Node

end DocumentViews

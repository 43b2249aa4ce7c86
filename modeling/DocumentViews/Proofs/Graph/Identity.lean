import Mathlib
import DocumentViews.Graph.Node
import DocumentViews.Proofs.Digest.Sha256
import DocumentViews.Proofs.Members

/-!
What an identifier says about a node. The hash has a fixed length, so the
display name can be read off. When the hashes of their attributes do not
collide, nodes with one identifier have the same name and kind, and payloads
that differ at most where the kind overrides them. There are five sets of
attributes without a payload, one for each kind, and their hashes differ. So a
node without a payload is identified by its kind and its name.
-/

namespace DocumentViews

variable {kind kind' : NodeKind} {name name' : String} {payload payload' : Json.Object}

theorem length_contentHash (attributes : Json.Object) :
    (contentHash attributes).toList.length = hashDigits := by
  rw [contentHash, String.toList_ofList, List.length_take, Sha256.length_hexHash]
  rfl

/-- The hash is as long as any other, so dashes in the name do no harm. -/
theorem nodeIdentifier_inj :
    nodeIdentifier kind name payload = nodeIdentifier kind' name' payload' ↔
      name = name' ∧ contentHash (nodeAttributes kind payload) =
        contentHash (nodeAttributes kind' payload') := by
  constructor
  · intro h
    have hlist := congrArg String.toList h
    simp only [nodeIdentifier, String.toList_append] at hlist
    obtain ⟨hfront, hhash⟩ := List.append_inj' hlist (by
      rw [length_contentHash, length_contentHash])
    obtain ⟨hname, -⟩ := List.append_inj' hfront rfl
    exact ⟨String.toList_inj.1 hname, String.toList_inj.1 hhash⟩
  · intro hboth
    obtain ⟨rfl, hhash⟩ := hboth
    rw [nodeIdentifier, nodeIdentifier, hhash]

/-- What stands before the last dash and the hash. -/
def nameInIdentifier (id : String) : String :=
  String.ofList (id.toList.take (id.toList.length - (hashDigits + 1)))

theorem nameInIdentifier_nodeIdentifier (kind : NodeKind) (name : String)
    (payload : Json.Object) : nameInIdentifier (nodeIdentifier kind name payload) = name := by
  have hlist : (nodeIdentifier kind name payload).toList =
      name.toList ++ ('-' :: (contentHash (nodeAttributes kind payload)).toList) := by
    simp [nodeIdentifier]
  have hlength : (nodeIdentifier kind name payload).toList.length - (hashDigits + 1) =
      name.toList.length := by
    rw [hlist, List.length_append, List.length_cons, length_contentHash, Nat.add_sub_cancel]
  rw [nameInIdentifier, hlength, hlist, List.take_left, String.ofList_toList]

/-- The names of the attributes that a kind sets, whatever the payload. -/
def NodeKind.fixedNames : NodeKind → List String
  | entity => ["node_type", "sub_type"]
  | component _ => ["node_type", "sub_type", "field_type"]

/-- A kind overrides the payload under its own names. -/
theorem find?_nodeAttributes (kind : NodeKind) (payload : Json.Object) (name : String) :
    (nodeAttributes kind payload).find? name =
      if name ∈ kind.fixedNames then (nodeAttributes kind []).find? name
      else payload.find? name := by
  cases kind with
  | entity =>
    simp only [nodeAttributes, NodeKind.fieldType?, NodeKind.fixedNames, Members.find?_insert,
      List.mem_cons, List.not_mem_nil, or_false]
    split_ifs <;> simp_all
  | component type =>
    simp only [nodeAttributes, NodeKind.fieldType?, NodeKind.fixedNames, Members.find?_insert,
      List.mem_cons, List.not_mem_nil, or_false]
    split_ifs <;> simp_all

theorem ascending_nodeAttributes (kind : NodeKind) (h : payload.Ascending) :
    (nodeAttributes kind payload).Ascending := by
  have htyped := Members.ascending_insert (Members.ascending_insert h "node_type"
    (.str kind.typeName)) "sub_type" (.str kind.subtypeName)
  cases kind with
  | entity => exact htyped
  | component type => exact Members.ascending_insert htyped "field_type" (.str type.name)

theorem find?_nodeType (kind : NodeKind) (payload : Json.Object) :
    (nodeAttributes kind payload).find? "node_type" = some (.str kind.typeName) := by
  cases kind with
  | entity => simp [nodeAttributes, NodeKind.fieldType?, Members.find?_insert]
  | component type => simp [nodeAttributes, NodeKind.fieldType?, Members.find?_insert]

theorem find?_fieldType (type : ScalarType) (payload : Json.Object) :
    (nodeAttributes (.component type) payload).find? "field_type" = some (.str type.name) := by
  simp [nodeAttributes, NodeKind.fieldType?, Members.find?_insert]

/-- The kind can be read off the attributes. -/
theorem kind_eq_of_nodeAttributes_eq
    (h : nodeAttributes kind payload = nodeAttributes kind' payload') : kind = kind' := by
  have htype : kind.typeName = kind'.typeName := by
    have hfind := find?_nodeType kind payload
    rw [h, find?_nodeType] at hfind
    exact (Json.str.inj (Option.some.inj hfind)).symm
  cases kind with
  | entity =>
    cases kind' with
    | entity => rfl
    | component type' => simp [NodeKind.typeName] at htype
  | component type =>
    cases kind' with
    | entity => simp [NodeKind.typeName] at htype
    | component type' =>
      have hfind := find?_fieldType type payload
      rw [h, find?_fieldType] at hfind
      have hname : type'.name = type.name := Json.str.inj (Option.some.inj hfind)
      rw [← ScalarType.ofName?_eq_some_iff, ScalarType.ofName?_name] at hname
      rw [Option.some.inj hname]

/-- What the kind overrides is all that attributes do not show of a payload. -/
theorem nodeAttributes_inj (h : payload.Ascending) (h' : payload'.Ascending) :
    nodeAttributes kind payload = nodeAttributes kind' payload' ↔
      kind = kind' ∧
        ∀ name ∉ kind.fixedNames, payload.find? name = payload'.find? name := by
  constructor
  · intro heq
    obtain rfl := kind_eq_of_nodeAttributes_eq heq
    refine ⟨rfl, fun name hname => ?_⟩
    have hfind : (nodeAttributes kind payload).find? name =
        (nodeAttributes kind payload').find? name := by rw [heq]
    rwa [find?_nodeAttributes kind payload, find?_nodeAttributes kind payload', if_neg hname,
      if_neg hname] at hfind
  · intro hboth
    obtain ⟨rfl, hpayload⟩ := hboth
    refine Members.eq_of_find? (ascending_nodeAttributes kind h) (ascending_nodeAttributes kind h')
      fun name => ?_
    rw [find?_nodeAttributes kind payload, find?_nodeAttributes kind payload']
    split
    · rfl
    · next hname => exact hpayload name hname

/-- The hashes of the attributes of each kind, as the digest computes them. -/
def plainHash : NodeKind → String
  | .entity => "2a14954840f034ed"
  | .component .integer => "ae50c317597ed29b"
  | .component .string => "8cdd49e66b3d3803"
  | .component .boolean => "5606cf162e8379b5"
  | .component .number => "90851ffa4ff674ba"

theorem contentHash_plain (kind : NodeKind) :
    contentHash (nodeAttributes kind []) = plainHash kind := by
  cases kind with
  | entity => decide +kernel
  | component type => cases type <;> decide +kernel

theorem plainHash_injective {first second : NodeKind} (h : plainHash first = plainHash second) :
    first = second := by
  cases first with
  | entity =>
    cases second with
    | entity => rfl
    | component type => cases type <;> simp [plainHash] at h
  | component type =>
    cases second with
    | entity => cases type <;> simp [plainHash] at h
    | component other => cases type <;> cases other <;> simp_all [plainHash]

/-- Without a payload the kind and the name make the identifier. -/
theorem nodeIdentifier_plain_inj :
    nodeIdentifier kind name [] = nodeIdentifier kind' name' [] ↔ kind = kind' ∧ name = name' := by
  rw [nodeIdentifier_inj, contentHash_plain, contentHash_plain]
  constructor
  · intro hboth
    obtain ⟨hname, hhash⟩ := hboth
    exact ⟨plainHash_injective hhash, hname⟩
  · intro hboth
    obtain ⟨rfl, rfl⟩ := hboth
    exact ⟨rfl, rfl⟩

namespace Node

/-- A node of the kind that walks register. -/
def IsPlain (node : Node) : Prop :=
  node.payload = []

theorem isPlain_table (name : String) (key : Option String) : (table name key).IsPlain := rfl

theorem isPlain_field (name : String) (key : Option String) (type : ScalarType) :
    (field name key type).IsPlain := rfl

theorem IsPlain.id_eq {node : Node} (h : node.IsPlain) :
    node.id = nodeIdentifier node.kind node.name [] := by
  rw [node.id_eq, h]

theorem IsPlain.id_eq_iff {first second : Node} (hfirst : first.IsPlain)
    (hsecond : second.IsPlain) :
    first.id = second.id ↔ first.kind = second.kind ∧ first.name = second.name := by
  rw [hfirst.id_eq, hsecond.id_eq, nodeIdentifier_plain_inj]

/-- What an identifier says and what it leaves out. If the hash tells the
attributes of two nodes apart, the nodes have one identifier only when their
names, their kinds and the free parts of their payloads agree. The key takes
no part, and the name is legible whatever it contains. -/
theorem identity_structural {first second : Node} (hfirst : first.payload.Ascending)
    (hsecond : second.payload.Ascending)
    (hapart : contentHash first.attributes = contentHash second.attributes →
      first.attributes = second.attributes) :
    (first.id = second.id ↔
      first.name = second.name ∧ first.kind = second.kind ∧
        ∀ name ∉ first.kind.fixedNames,
          first.payload.find? name = second.payload.find? name) ∧
    (∀ key, (make first.kind first.name key first.payload).id = first.id) ∧
    nameInIdentifier first.id = first.name := by
  have hattributes : contentHash first.attributes = contentHash second.attributes ↔
      first.kind = second.kind ∧
        ∀ name ∉ first.kind.fixedNames,
          first.payload.find? name = second.payload.find? name := by
    rw [← nodeAttributes_inj hfirst hsecond]
    exact ⟨hapart, congrArg contentHash⟩
  refine ⟨?_, fun key => first.id_eq.symm, ?_⟩
  · rw [first.id_eq, second.id_eq, nodeIdentifier_inj]
    exact and_congr_right fun _ => hattributes
  · rw [first.id_eq, nameInIdentifier_nodeIdentifier]

/-- A table and a column of one name with dashes, where the payloads claim the
kind of the other. -/
theorem identity_structural_disguised :
    let entity := make .entity "order-lines-2" (some "orderLines")
      [("field_type", .str "string"), ("node_type", .str "component")]
    let column := make (.component .string) "order-lines-2" none
      [("node_type", .str "entity"), ("sub_type", .str "tables")]
    (entity.id = column.id ↔
      entity.name = column.name ∧ entity.kind = column.kind ∧
        ∀ name ∉ entity.kind.fixedNames,
          entity.payload.find? name = column.payload.find? name) ∧
    (∀ key, (make entity.kind entity.name key entity.payload).id = entity.id) ∧
    nameInIdentifier entity.id = entity.name :=
  identity_structural (by decide) (by decide) fun hsame => absurd hsame (by decide +kernel)

/-- A reserved name in a payload is not hashed. -/
example :
    (make (.component .integer) "total" none [("field_type", .str "string")]).attributes =
      (field "total" none .integer).attributes := by
  rfl

end Node

end DocumentViews

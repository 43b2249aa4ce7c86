import DocumentViews.Members

/-!
JSON values. A number is an integer or a binary fraction, and the two stay
apart even when they are equal in value. The members of an object ascend by
name.
-/

namespace DocumentViews

inductive Number where
  | int (value : Int)
  | float (value : Float)

inductive Json where
  | null
  | bool (value : Bool)
  | num (value : Number)
  | str (value : String)
  | arr (items : List Json)
  | obj (members : List (String × Json))

namespace Json

/-- A JSON object on its own. -/
abbrev Object := Members Json

def asString? : Json → Option String
  | str value => some value
  | _ => none

def asArray? : Json → Option (List Json)
  | arr items => some items
  | _ => none

def asObject? : Json → Option Object
  | obj members => some members
  | _ => none

/-- The member of an object with the given name. -/
def get? (value : Json) (name : String) : Option Json :=
  value.asObject?.bind fun members => Members.find? members name

/-- The text of the member with the given name, if it is a text. -/
def text? (value : Json) (name : String) : Option String :=
  (value.get? name).bind asString?

/-- Null, false, zero and everything without content. -/
def isVoid : Json → Bool
  | null => true
  | bool value => !value
  | num (.int value) => value == 0
  | num (.float value) => value == 0
  | str value => value == ""
  | arr items => items.isEmpty
  | obj members => members.isEmpty

end Json

/-- The members of an object are smaller than the object. -/
theorem Members.sizeOf_find? {members : Json.Object} {name : String} {value : Json}
    (h : members.find? name = some value) : sizeOf value < sizeOf members := by
  induction members with
  | nil => simp [Members.find?] at h
  | cons entry rest ih =>
    obtain ⟨other, found⟩ := entry
    simp only [Members.find?] at h
    split at h
    · obtain rfl := Option.some.inj h
      simp only [List.cons.sizeOf_spec, Prod.mk.sizeOf_spec]
      omega
    · have := ih h
      simp only [List.cons.sizeOf_spec]
      omega

end DocumentViews

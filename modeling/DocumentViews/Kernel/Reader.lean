import DocumentViews.Json.Reader
import DocumentViews.Json.Number
import DocumentViews.Kernel.Basic
import DocumentViews.Text.Visible

/-!
Kernels from JSON texts. A text is an object that fills slots by name, or an
array that fills them in order. Empty slots keep their standard identifiers.
The text is read from left to right and the first problem counts, so what
stands behind it is of no account.
-/

namespace DocumentViews.Kernel

/-- What a text holds in a place where something else is wanted. -/
inductive Found where
  | null
  | bool (value : Bool)
  | num (value : Number)
  | str (value : String)
  | array
  | object

/-- The places of a text where only one kind of value fits. -/
inductive Place where
  | whole
  | slot

inductive Error where
  /-- The text is no JSON. -/
  | malformed
  | mismatch (found : Found) (place : Place)
  | unknownField (name : String)
  | duplicateField (slot : Slot)
  | blank (slot : Slot)

/-- The value that begins with a token. -/
def Found.ofToken? : Token → Option Found
  | .null => some null
  | .bool value => some (bool value)
  | .num value => some (num value)
  | .str value => some (str value)
  | .leftBracket => some array
  | .leftBrace => some object
  | _ => none

/-- A token does not fit in a place. -/
def misplaced (tokens : List Token) (place : Place) : Error :=
  match tokens.head?.bind Found.ofToken? with
  | some found => .mismatch found place
  | none => .malformed

/-- What remains of a text after its value has to be nothing. -/
def finish (kernel : Kernel) (tokens : List Token) : Except Error Kernel :=
  if tokens.isEmpty then .ok kernel else .error .malformed

/-- Reads the members of an object, the slots given being filled already. -/
def readMembers (kernel : Kernel) (filled : List Slot) (tokens : List Token) :
    Except Error Kernel :=
  match tokens with
  | .str name :: tokens =>
    match Slot.ofName? name with
    | none => .error (.unknownField name)
    | some slot =>
      if slot ∈ filled then .error (.duplicateField slot)
      else
        match tokens with
        | .colon :: .str value :: .comma :: rest =>
          readMembers (kernel.set slot value) (slot :: filled) rest
        | .colon :: .str value :: .rightBrace :: rest => finish (kernel.set slot value) rest
        | .colon :: .str _ :: _ => .error .malformed
        | .colon :: rest => .error (misplaced rest .slot)
        | _ => .error .malformed
  | _ => .error .malformed

/-- Reads the items of an array into the slots given. -/
def readItems (kernel : Kernel) (slots : List Slot) (tokens : List Token) :
    Except Error Kernel :=
  match slots with
  | [] => .error .malformed
  | slot :: slots =>
    match tokens with
    | .str value :: .comma :: rest => readItems (kernel.set slot value) slots rest
    | .str value :: .rightBracket :: rest => finish (kernel.set slot value) rest
    | .str _ :: _ => .error .malformed
    | rest => .error (misplaced rest .slot)

def ofTokens (tokens : List Token) : Except Error Kernel :=
  match tokens with
  | .leftBrace :: .rightBrace :: rest => finish standard rest
  | .leftBrace :: rest => readMembers standard [] rest
  | .leftBracket :: .rightBracket :: rest => finish standard rest
  | .leftBracket :: rest => readItems standard Slot.all rest
  | rest => .error (misplaced rest .whole)

/-- Reads a kernel and refuses blank identifiers. -/
def ofText (text : String) : Except Error Kernel :=
  match ofTokens (Token.tokens text.toList) with
  | .error error => .error error
  | .ok kernel =>
    match kernel.blankSlot? with
    | some slot => .error (.blank slot)
    | none => .ok kernel

def Found.description : Found → String
  | null => "null"
  | bool value => "boolean " ++ Text.ticked (if value then "true" else "false")
  | num (.int value) => "integer " ++ Text.ticked (toString value)
  | num (.float value) => "floating point " ++ Text.ticked (Number.float value).text
  | str value => "string " ++ Text.visible value
  | array => "sequence"
  | object => "map"

def Place.wanted : Place → String
  | whole => "struct KernelTable"
  | slot => "a string"

/-- The wording for texts that are no kernels. -/
def invalid : String := "invalid kernel config JSON"

def Error.message : Error → String
  | malformed => invalid
  | mismatch found place =>
    invalid ++ ": invalid type: " ++ found.description ++ ", expected " ++ place.wanted
  | unknownField name =>
    invalid ++ ": unknown field " ++ Text.ticked name ++ ", expected one of " ++
      String.intercalate ", " (Slot.all.map fun slot => Text.ticked slot.name)
  | duplicateField slot => invalid ++ ": duplicate field " ++ Text.ticked slot.name
  | blank slot => "kernel config field '" ++ slot.name ++ "' must not be empty"

end DocumentViews.Kernel

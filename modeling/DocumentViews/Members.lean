/-!
Finite maps from names, as association lists whose names ascend by code
point, which is also the order of their UTF-8 bytes. Objects of JSON, the
attributes of nodes and edges, and the catalog of graphs are of this kind.
Inserting and erasing keep the order, and a name occurs at most once.
-/

namespace DocumentViews

abbrev Members (α : Type) := List (String × α)

namespace Members

variable {α : Type}

def keys (members : Members α) : List String :=
  members.map Prod.fst

/-- Every name comes before the later ones. -/
def Ascending (members : Members α) : Prop :=
  members.keys.Pairwise (· < ·)

def find? (members : Members α) (key : String) : Option α :=
  match members with
  | [] => none
  | (k, v) :: rest => if key = k then some v else find? rest key

def contains (members : Members α) (key : String) : Bool :=
  (members.find? key).isSome

/-- Sets the value of a name, in its place in the order. -/
def insert (members : Members α) (key : String) (value : α) : Members α :=
  match members with
  | [] => [(key, value)]
  | (k, v) :: rest =>
    if key < k then (key, value) :: (k, v) :: rest
    else if key = k then (key, value) :: rest
    else (k, v) :: insert rest key value

def erase (members : Members α) (key : String) : Members α :=
  match members with
  | [] => []
  | (k, v) :: rest => if key = k then rest else (k, v) :: erase rest key

/-- Takes over the members of `later`, which win over those present. -/
def extend (members later : Members α) : Members α :=
  later.foldl (fun acc entry => acc.insert entry.1 entry.2) members

/-- The members of a list of pairs. Of pairs with one name the last wins. -/
def ofList (entries : List (String × α)) : Members α :=
  extend [] entries

theorem length_insert_le (members : Members α) (key : String) (value : α) :
    (members.insert key value).length ≤ members.length + 1 := by
  induction members with
  | nil => simp [insert]
  | cons entry rest ih =>
    simp only [insert]
    split
    · simp
    · split
      · simp
      · simpa using ih

end Members

end DocumentViews

/-!
Association lists in order of first arrival. A key that returns keeps its
place and takes the later value.
-/

namespace DocumentViews

abbrev Listing (κ α : Type) := List (κ × α)

namespace Listing

variable {κ α : Type} [DecidableEq κ]

def keys (listing : Listing κ α) : List κ :=
  listing.map Prod.fst

def find? (listing : Listing κ α) (key : κ) : Option α :=
  match listing with
  | [] => none
  | (k, v) :: rest => if key = k then some v else find? rest key

/-- Changes the value of a key, which may be new and then comes last. -/
def alter (listing : Listing κ α) (key : κ) (change : Option α → α) : Listing κ α :=
  match listing with
  | [] => [(key, change none)]
  | (k, v) :: rest =>
    if key = k then (k, change (some v)) :: rest else (k, v) :: alter rest key change

def put (listing : Listing κ α) (key : κ) (value : α) : Listing κ α :=
  listing.alter key fun _ => value

def ofList (entries : List (κ × α)) : Listing κ α :=
  entries.foldl (fun acc entry => acc.put entry.1 entry.2) []

end Listing

/-- The members of a list in order of first arrival, each once. -/
def firstArrivals {κ : Type} [DecidableEq κ] (items : List κ) : List κ :=
  items.foldl (fun acc item => if item ∈ acc then acc else acc ++ [item]) []

end DocumentViews

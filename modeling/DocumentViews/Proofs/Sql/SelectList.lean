import Mathlib
import DocumentViews.Proofs.Sql.Spelling

/-!
The select list of a query, read off its lexemes: the items between the word
SELECT and the word FROM, each with the name that it is given. A comma ends an
item only outside parentheses. A list of items in which nothing else would end
an item is read back item by item.
-/

namespace DocumentViews.Sql

/-- Whether a lexeme is a word, in whatever case its letters are. -/
def Lexeme.isKeyword (keyword : String) : Lexeme → Bool
  | word text => folded text == keyword
  | _ => false

/-- How many parentheses are open behind a lexeme. -/
def depthBehind (depth : Nat) (lexeme : Lexeme) : Nat :=
  if lexeme = .mark '(' then depth + 1 else if lexeme = .mark ')' then depth - 1 else depth

/-- The items of a list that ends with FROM. -/
def readItems (depth : Nat) : List Lexeme → Option (List (List Lexeme))
  | [] => none
  | lexeme :: rest =>
    if depth = 0 ∧ lexeme.isKeyword "from" then some [[]]
    else if depth = 0 ∧ lexeme = .mark ',' then (readItems 0 rest).map ([] :: ·)
    else (readItems (depthBehind depth lexeme) rest).map (List.modifyHead (lexeme :: ·))

/-- Lexemes that end no item, where at least the given number of parentheses is
open around them. -/
def StaysInItem (least : Nat) (part : List Lexeme) : Prop :=
  ∀ depth, least ≤ depth → ∀ rest,
    readItems depth (part ++ rest) = (readItems depth rest).map (List.modifyHead (part ++ ·))

namespace StaysInItem

variable {least : Nat} {part more : List Lexeme}

theorem nil : StaysInItem least [] := by
  intro depth _ rest
  have hsame : List.modifyHead (fun item : List Lexeme => [] ++ item) = id := by
    funext items
    cases items <;> rfl
  rw [List.nil_append, hsame, Option.map_id, id]

theorem mono (h : StaysInItem least part) {depth : Nat} (hle : least ≤ depth) :
    StaysInItem depth part :=
  fun other hother => h other (hle.trans hother)

theorem append (hpart : StaysInItem least part) (hmore : StaysInItem least more) :
    StaysInItem least (part ++ more) := by
  intro depth hdepth rest
  rw [List.append_assoc, hpart depth hdepth, hmore depth hdepth, Option.map_map]
  congr 1
  funext items
  rw [Function.comp_apply, List.modifyHead_modifyHead]
  congr 1
  funext item
  exact (List.append_assoc part more item).symm

/-- A lexeme that is neither FROM nor a comma ends no item. -/
theorem step (lexeme : Lexeme) (hfrom : lexeme.isKeyword "from" = false)
    (hcomma : lexeme ≠ .mark ',') (depth : Nat) (rest : List Lexeme) :
    readItems depth (lexeme :: rest) =
      (readItems (depthBehind depth lexeme) rest).map (List.modifyHead (lexeme :: ·)) := by
  rw [readItems, if_neg (by simp [hfrom]), if_neg (by simp [hcomma])]

/-- Inside parentheses a comma ends no item. -/
theorem comma : StaysInItem 1 [.mark ','] := by
  intro depth hdepth rest
  have hne : depth ≠ 0 := by omega
  rw [List.singleton_append, readItems, if_neg (by simp [hne]), if_neg (by simp [hne])]
  rfl

end StaysInItem

end DocumentViews.Sql

/-!
English plurals of snake-case names. Only the last word changes, and words
that name a mass stay as they are.
-/

namespace DocumentViews.Naming

/-- Words whose plural is the word itself. -/
def massNouns : List String :=
  ["data", "equipment", "information", "metadata", "news", "series", "species"]

/-- Endings that take `es`. -/
def hissingEndings : List String :=
  ["us", "ss", "sh", "ch", "x", "z"]

def vowels : List Char := ['a', 'e', 'i', 'o', 'u']

/-- What follows the last underscore. -/
def lastWord (name : String) : String :=
  String.ofList (name.toList.reverse.takeWhile (· != '_')).reverse

def hasEnding (name ending : String) : Bool :=
  ending.toList.isSuffixOf name.toList

/-- Replaces a final `y` after a consonant by `ies`. -/
def pluralOfY (name : String) : Option String :=
  match name.toList.reverse with
  | 'y' :: c :: rest =>
    if c ∈ vowels then none else some (String.ofList (rest.reverse ++ [c]) ++ "ies")
  | _ => none

def plural (name : String) : String :=
  if name = "" ∨ lastWord name ∈ massNouns then name
  else if hissingEndings.any (hasEnding name) then name ++ "es"
  else if hasEnding name "s" then name
  else (pluralOfY name).getD (name ++ "s")

end DocumentViews.Naming

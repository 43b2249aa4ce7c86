/-!
Blank characters, the 25 code points with the Unicode property White_Space,
and the removal of blanks at both ends of a text. A text is blank when it
holds nothing else.
-/

namespace DocumentViews.Text

/-- The property as closed ranges of code points, ascending and apart. -/
def blankRanges : List (Nat × Nat) :=
  [(0x09, 0x0D), (0x20, 0x20), (0x85, 0x85), (0xA0, 0xA0), (0x1680, 0x1680),
    (0x2000, 0x200A), (0x2028, 0x2029), (0x202F, 0x202F), (0x205F, 0x205F), (0x3000, 0x3000)]

/-- Whether a code point lies in one of the ranges. -/
def inRanges (ranges : List (Nat × Nat)) (code : Nat) : Bool :=
  ranges.any fun range => decide (range.1 ≤ code) && decide (code ≤ range.2)

def isBlankChar (c : Char) : Bool :=
  inRanges blankRanges c.toNat

/-- Whether nothing is left of the text once its blanks are taken away. -/
def isBlank (text : String) : Bool :=
  text.toList.all isBlankChar

theorem blankRanges_size :
    (blankRanges.flatMap fun range => List.range' range.1 (range.2 + 1 - range.1)).length = 25 := by
  decide

/-- The table adds to the blanks of the core library and takes none away. -/
theorem isBlankChar_of_isWhitespace {c : Char} (h : c.isWhitespace = true) :
    isBlankChar c = true := by
  simp only [Char.isWhitespace, Bool.or_eq_true, decide_eq_true_eq] at h
  rcases h with ((h | h) | h) | h <;> subst h <;> decide

/-- A zero-width space is no blank. -/
theorem isBlankChar_zeroWidthSpace : isBlankChar '\u200b' = false := by decide

end DocumentViews.Text

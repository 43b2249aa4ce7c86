import DocumentViews.Text.Visible

/-!
Texts for a terminal. A terminal may obey some control characters, so each of
them is spelled by its number. The spelled text holds none of them, and a text
that holds none stays as it is.
-/

namespace DocumentViews.Text

/-- Bell, backspace, form feed, escape, delete and the control characters
above it. -/
def steeringRanges : List (Nat × Nat) :=
  [(0x07, 0x08), (0x0C, 0x0C), (0x1B, 0x1B), (0x7F, 0x9F)]

def isSteering (c : Char) : Bool :=
  inRanges steeringRanges c.toNat

/-- The number of an ASCII character in two hexadecimal digits. -/
def numberedAscii (c : Char) : List Char :=
  ['\\', 'x'] ++ (Nat.toDigits 16 c.toNat).leftpad 2 '0'

def terminalChar (c : Char) : List Char :=
  if isSteering c then
    if c.toNat < 0x80 then numberedAscii c else numbered c
  else [c]

/-- The text with numbers for what a terminal may obey. -/
def forTerminal (text : String) : String :=
  String.ofList (text.toList.flatMap terminalChar)

/-- A text that steers no terminal stays as it is. -/
theorem forTerminal_eq_self {text : String} (h : ∀ c ∈ text.toList, isSteering c = false) :
    forTerminal text = text := by
  have spelled : ∀ chars : List Char, (∀ c ∈ chars, isSteering c = false) →
      chars.flatMap terminalChar = chars := by
    intro chars
    induction chars with
    | nil => simp
    | cons c rest ih => simp +contextual [terminalChar, ih]
  rw [forTerminal, spelled _ h, String.ofList_toList]

theorem terminalChar_steady_of_lt : ∀ code < 0xA0,
    (terminalChar (Char.ofNat code)).all (fun c => !isSteering c) = true := by
  decide +kernel

theorem lt_of_isSteering {c : Char} (h : isSteering c = true) : c.toNat < 0xA0 := by
  simp [isSteering, inRanges, steeringRanges] at h
  omega

theorem terminalChar_steady (c : Char) :
    (terminalChar c).all (fun d => !isSteering d) = true := by
  by_cases h : isSteering c = true
  · have small := terminalChar_steady_of_lt c.toNat (lt_of_isSteering h)
    rwa [Char.ofNat_toNat] at small
  · simp [terminalChar, h]

/-- A spelled text steers no terminal. -/
theorem isSteering_of_mem_forTerminal {text : String} {c : Char}
    (h : c ∈ (forTerminal text).toList) : isSteering c = false := by
  rw [forTerminal, String.toList_ofList, List.mem_flatMap] at h
  obtain ⟨before, _, mem⟩ := h
  simpa using List.all_eq_true.mp (terminalChar_steady before) c mem

end DocumentViews.Text

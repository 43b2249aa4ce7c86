import DocumentViews.Json.Basic

/-!
Numerals as JSON writes them, and their values. A numeral has a whole part, an
optional fraction and an optional exponent. Without the last two it stands for
an integer if that fits into 64 bits. All others stand for a binary fraction:
the digits that fit into 64 bits are taken as an integer and scaled by a power
of ten, in one step unless the power is below `10 ^ -308`. A value beyond the
format has no reading.
-/

namespace DocumentViews

/-- The parts of a numeral, each a list of digits. -/
structure Numeral where
  negative : Bool
  whole : List Char
  fraction : List Char
  /-- The sign and the digits of the exponent. -/
  exponent : Option (Bool × List Char)

namespace Numeral

def splitDigits (text : List Char) : List Char × List Char :=
  (text.takeWhile Char.isDigit, text.dropWhile Char.isDigit)

/-- A whole part has no zero before its other digits. -/
def readWhole (text : List Char) : Option (List Char × List Char) :=
  match splitDigits text with
  | ([], _) => none
  | ('0' :: _ :: _, _) => none
  | parts => some parts

/-- The digits after a point, if one follows. -/
def readFraction (text : List Char) : Option (List Char × List Char) :=
  match text with
  | '.' :: rest =>
    match splitDigits rest with
    | ([], _) => none
    | parts => some parts
  | _ => some ([], text)

/-- The sign of an exponent. -/
def readSign (text : List Char) : Bool × List Char :=
  match text with
  | '+' :: rest => (false, rest)
  | '-' :: rest => (true, rest)
  | _ => (false, text)

def readExponent (text : List Char) : Option (Option (Bool × List Char) × List Char) :=
  match text with
  | [] => some (none, [])
  | c :: rest =>
    if c = 'e' ∨ c = 'E' then
      let (negative, rest) := readSign rest
      match splitDigits rest with
      | ([], _) => none
      | (digits, rest) => some (some (negative, digits), rest)
    else some (none, text)

/-- Reads a numeral after its sign and returns the rest of the text. -/
def readUnsigned (negative : Bool) (text : List Char) : Option (Numeral × List Char) := do
  let (whole, text) ← readWhole text
  let (fraction, text) ← readFraction text
  let (exponent, text) ← readExponent text
  return (⟨negative, whole, fraction, exponent⟩, text)

def read (text : List Char) : Option (Numeral × List Char) :=
  match text with
  | '-' :: rest => readUnsigned true rest
  | _ => readUnsigned false text

theorem splitDigits_length {digits text rest : List Char}
    (h : splitDigits text = (digits, rest)) : digits.length + rest.length = text.length := by
  obtain ⟨rfl, rfl⟩ := Prod.mk.inj h
  rw [← List.length_append, List.takeWhile_append_dropWhile]

theorem readWhole_length {digits text rest : List Char}
    (h : readWhole text = some (digits, rest)) : rest.length < text.length := by
  unfold readWhole at h
  split at h
  · simp at h
  · simp at h
  · next hnil _ =>
    have hsplit := Option.some.inj h
    have := splitDigits_length hsplit
    have := List.length_pos_iff.2 (show digits ≠ [] by rintro rfl; exact hnil _ hsplit)
    omega

theorem readFraction_length {digits text rest : List Char}
    (h : readFraction text = some (digits, rest)) : rest.length ≤ text.length := by
  unfold readFraction at h
  split at h
  · split at h
    · simp at h
    · have := splitDigits_length (Option.some.inj h)
      simp only [List.length_cons]
      omega
  · simp_all

theorem readSign_length (text : List Char) : (readSign text).2.length ≤ text.length := by
  unfold readSign
  split <;> simp

theorem readExponent_length {exponent : Option (Bool × List Char)} {text rest : List Char}
    (h : readExponent text = some (exponent, rest)) : rest.length ≤ text.length := by
  unfold readExponent at h
  split at h
  · simp_all
  · next c tail =>
    split at h
    · have hsign := readSign_length tail
      simp only at h
      split at h
      · simp at h
      · next hsplit =>
        have := splitDigits_length hsplit
        simp only [Option.some.injEq, Prod.mk.injEq] at h
        obtain ⟨-, rfl⟩ := h
        simp only [List.length_cons]
        omega
    · simp_all

theorem readUnsigned_length {negative : Bool} {numeral : Numeral} {text rest : List Char}
    (h : readUnsigned negative text = some (numeral, rest)) : rest.length < text.length := by
  simp only [readUnsigned, Option.bind_eq_bind, Option.bind_eq_some_iff] at h
  obtain ⟨⟨_, _⟩, hwhole, ⟨_, _⟩, hfraction, ⟨_, _⟩, hexponent, hrest⟩ := h
  simp only [Option.pure_def, Option.some.injEq, Prod.mk.injEq] at hrest
  have := readWhole_length hwhole
  have := readFraction_length hfraction
  have := readExponent_length hexponent
  obtain ⟨-, rfl⟩ := hrest
  simp only at *
  omega

theorem read_length {numeral : Numeral} {text rest : List Char}
    (h : read text = some (numeral, rest)) : rest.length < text.length := by
  unfold read at h
  split at h
  · have := readUnsigned_length h
    simp only [List.length_cons]
    omega
  · exact readUnsigned_length h

def digitValue (c : Char) : Nat :=
  c.toNat - '0'.toNat

/-- The greatest integer that the digits of a numeral are gathered in. -/
def capacity : Nat := Nat.pow 2 64 - 1

/-- Appends digits to a number as long as the capacity admits. Returns the
number and the digits left over. -/
def gather (number : Nat) : List Char → Nat × List Char
  | [] => (number, [])
  | c :: rest =>
    let next := 10 * number + digitValue c
    if next ≤ capacity then gather next rest else (number, c :: rest)

/-- The digits of a numeral as an integer and the power of ten that scales it.
A digit of the whole part that finds no room raises the power, a digit of the
fraction that finds room lowers it. -/
def scaled (numeral : Numeral) : Nat × Int :=
  let (number, surplus) := gather 0 numeral.whole
  let (number, unread) := gather number numeral.fraction
  (number, surplus.length - (numeral.fraction.length - unread.length : Nat))

/-- The value of exponent digits, up to the limit of 31 bits. -/
def boundedValue (digits : List Char) : Option Nat :=
  let value := digits.foldl (fun acc c => 10 * acc + digitValue c) 0
  if value < Nat.pow 2 31 then some value else none

def tenTo (power : Nat) : Float :=
  Float.ofScientific 1 false power

/-- The quotient of a float by a power of ten, in steps that the format can
hold. -/
def divideByPower (value : Float) (power : Nat) : Float :=
  if power ≤ 308 then value / tenTo power
  else if value == 0 then value
  else divideByPower (value / tenTo 308) (power - 308)
termination_by power
decreasing_by omega

/-- The number times a power of ten, if that is within the format. -/
def scale (number : Nat) (power : Int) : Option Float :=
  let value := Float.ofNat number
  if power < 0 then some (divideByPower value (-power).toNat)
  else if power ≤ 308 then
    let product := value * tenTo power.toNat
    if product.isInf then none else some product
  else if number = 0 then some value
  else none

def signed (negative : Bool) (value : Float) : Float :=
  if negative then -value else value

/-- The value of a numeral as a binary fraction. -/
def toFloat? (numeral : Numeral) : Option Float :=
  let (number, power) := numeral.scaled
  match numeral.exponent with
  | none => (scale number power).map (signed numeral.negative)
  | some (down, digits) =>
    match boundedValue digits with
    | some shift =>
      (scale number (if down then power - shift else power + shift)).map (signed numeral.negative)
    | none => if down ∨ number = 0 then some (signed numeral.negative 0) else none

/-- The integer a numeral stands for. There is none for a fraction, for an
exponent, for a negative zero and for what needs more than 64 bits. -/
def toInt? (numeral : Numeral) : Option Int :=
  if numeral.fraction.isEmpty ∧ numeral.exponent.isNone then
    match gather 0 numeral.whole with
    | (number, []) =>
      if numeral.negative then
        if 0 < number ∧ number ≤ Nat.pow 2 63 then some (-number) else none
      else some number
    | _ => none
  else none

def toNumber? (numeral : Numeral) : Option Number :=
  match numeral.toInt? with
  | some value => some (.int value)
  | none => numeral.toFloat?.map .float

end Numeral

end DocumentViews

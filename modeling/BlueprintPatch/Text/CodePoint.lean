import BlueprintPatch.Text.DecimalDigit

/-! Text by its code points. A text may hold half of a surrogate pair, which is no character; text
without such halves is the text of a `String`. -/
namespace BlueprintPatch

/-- A character, or half of a surrogate pair, by its place among all halves. -/
inductive CodePoint
  | char (c : Char)
  | half (i : Fin 0x800)
deriving DecidableEq, Repr

namespace CodePoint

def code : CodePoint → Nat
  | char c => c.toNat
  | half i => 0xD800 + i

/-- The code point of a unit of UTF-16 that stands alone. -/
def ofUnit (n : Nat) : CodePoint :=
  if h : 0xD800 ≤ n ∧ n < 0xE000 then .half ⟨n - 0xD800, by omega⟩ else .char (Char.ofNat n)

def char? : CodePoint → Option Char
  | char c => some c
  | half _ => none

/-- The character that stands for a code point where only places matter. -/
def shown : CodePoint → Char
  | char c => c
  | half _ => '\uFFFD'

def isDigit : CodePoint → Bool
  | char c => c.isDigit
  | half _ => false

@[simp] theorem isDigit_char (c : Char) : (char c).isDigit = c.isDigit := rfl

/-- A character as it is, a half as the escape that writes it. -/
def spelling : CodePoint → List Char
  | char c => [c]
  | p => '\\' :: 'u' :: Text.hex 4 p.code

end CodePoint

abbrev Points := List CodePoint

namespace Points

def ofString (s : String) : Points := s.toList.map .char

/-- The characters, if there is no half among the code points. -/
def chars? : Points → Option (List Char)
  | [] => some []
  | .char c :: rest => (chars? rest).map (c :: ·)
  | .half _ :: _ => none

/-- The string with these code points. -/
def text? (ps : Points) : Option String := (chars? ps).map String.ofList

/-- The text where only a string can stand: the halves are spelt out. -/
def spelt (ps : Points) : String := String.ofList (ps.flatMap CodePoint.spelling)

theorem ofString_ofList (cs : List Char) : ofString (String.ofList cs) = cs.map .char := by
  rw [ofString, String.toList_ofList]

theorem ofString_append (s t : String) : ofString (s ++ t) = ofString s ++ ofString t := by
  rw [ofString, String.toList_append, List.map_append]
  rfl

theorem head?_ofString {s : String} {c : Char} (h : s.toList.head? = some c) :
    (ofString s).head? = some (.char c) := by
  rw [ofString, List.head?_map, h, Option.map_some]

theorem getLast?_ofString {s : String} {c : Char} (h : s.toList.getLast? = some c) :
    (ofString s).getLast? = some (.char c) := by
  rw [ofString, List.getLast?_map, h, Option.map_some]

theorem chars?_map_char (cs : List Char) : chars? (cs.map .char) = some cs := by
  induction cs with
  | nil => rfl
  | cons c cs ih => rw [List.map_cons, chars?, ih, Option.map_some]

theorem eq_map_char_of_chars? {ps : Points} {cs : List Char} (h : chars? ps = some cs) :
    ps = cs.map .char := by
  fun_induction chars? ps generalizing cs with
  | case1 =>
    obtain rfl := Option.some.inj h
    rfl
  | case2 c rest ih =>
    obtain ⟨ds, hds, rfl⟩ := Option.map_eq_some_iff.mp h
    rw [List.map_cons, ← ih hds]
  | case3 => cases h

@[simp]
theorem text?_ofString (s : String) : text? (ofString s) = some s := by
  rw [text?, ofString, chars?_map_char, Option.map_some, String.ofList_toList]

/-- A text without halves is the text of its string. -/
theorem ofString_of_text? {ps : Points} {s : String} (h : text? ps = some s) :
    ofString s = ps := by
  obtain ⟨cs, hcs, rfl⟩ := Option.map_eq_some_iff.mp h
  rw [ofString, String.toList_ofList, ← eq_map_char_of_chars? hcs]

@[simp]
theorem spelt_ofString (s : String) : spelt (ofString s) = s := by
  have hchars : (s.toList.map CodePoint.char).flatMap CodePoint.spelling = s.toList := by
    generalize s.toList = cs
    induction cs with
    | nil => rfl
    | cons c cs ih => simp [CodePoint.spelling, ih]
  rw [spelt, ofString, hchars, String.ofList_toList]

end Points

/-- A text that holds half of a surrogate pair. -/
abbrev BrokenText := { ps : Points // ps.text? = none }

end BlueprintPatch

import BlueprintPatch.Json.Fault
import BlueprintPatch.Number.Numeral
import BlueprintPatch.Record.Checked

/-! Fields that give their number as text. Underscores may set the parts of the number apart;
an integer may be padded with zeros in front and may end in a point and zeros. -/
namespace BlueprintPatch.NumberText

/-- The text without underscores, each of which has to stand between two other characters;
`inside` says whether there is one in front. -/
def ungroup (inside : Bool) : List Char → Option (List Char)
  | [] => if inside then some [] else none
  | c :: cs =>
    if c = '_' then if inside then ungroup false cs else none
    else (ungroup true cs).map (c :: ·)

/-- What follows the zeros and underscores at the start of the text: nothing, a number or a point.
The zero in front of the end or of a point stays; `last` is the character in front of the text. -/
def skipZeros (last : Char) : List Char → Option (List Char)
  | [] => some [last]
  | c :: cs =>
    if c = '0' ∨ c = '_' then skipZeros c cs
    else if c = '.' then some (last :: c :: cs)
    else if c.isDigit ∨ c = '-' then some (c :: cs)
    else none

/-- The text without zeros in front of its number. It has to begin with a digit. -/
def withoutPadding : List Char → Option (List Char)
  | [] => none
  | c :: cs => if c = '0' then skipZeros c cs else if c.isDigit then some (c :: cs) else none

/-- The text without a point that zeros follow up to its end. -/
def withoutZeroPlaces (cs : List Char) : List Char :=
  let places := (cs.dropWhile (· ≠ '.')).drop 1
  if !places.isEmpty && places.all (· = '0') then cs.takeWhile (· ≠ '.') else cs

/-- The integer that digits after an optional minus write. The minus counts as a digit where their
number is limited, and too many digits are a flaw of their own whatever follows them. -/
def digits (cs : List Char) : Except Flaw Int :=
  let minus := cs.head? == some '-'
  let body := if minus then cs.drop 1 else cs
  let run := body.takeWhile Char.isDigit
  if run.isEmpty || (run.head? = some '0' && 1 < run.length) then .error .intParsing
  else if Json.maxDigits < run.length + minus.toNat then .error .intParsingSize
  else if run.length < body.length then .error .intParsing
  else .ok (Numeral.signed minus (Text.ofDigits 10 (run.filterMap Text.asciiDigit?)))

/-- The text without what may stand around the digits of an integer: blanks, a plus, padding,
underscores and places that hold zeros. -/
def bare (cs : List Char) : Option (List Char) := do
  let (negative, body) := Numeral.sign (Text.trim Text.isBlank cs)
  let whole := withoutZeroPlaces (← withoutPadding body)
  let plain := (ungroup false whole).getD whole
  return if negative then '-' :: plain else plain

/-- The integer that a text writes. Only a text that begins with its digits can have too many of
them. -/
def integer (s : String) : Checked Int :=
  match digits s.toList with
  | .ok n => .ok n
  | .error .intParsingSize => .fail .intParsingSize
  | .error _ =>
    match (bare s.toList).map digits with
    | some (.ok n) => .ok n
    | _ => .fail .intParsing

/-- The number that a text writes. Blanks around it and underscores in it exclude one another. -/
def number? (s : String) : Option Binary64 :=
  let cs := s.toList
  if '_' ∉ cs then Numeral.number? Text.asciiDigit? s
  else if Text.trim Text.isBlank cs = cs then
    (ungroup false cs).bind fun plain => Numeral.number? Text.asciiDigit? (String.ofList plain)
  else none

end BlueprintPatch.NumberText

import BlueprintPatch.Number.Binary64
import BlueprintPatch.Text.Blank
import BlueprintPatch.Text.DecimalDigit

/-! Numbers written by hand: blanks around them, a sign, single underscores between digits. The
digits that may be used are a parameter. -/
namespace BlueprintPatch.Numeral

/-- The digits at the start of a text, single underscores between them skipped, and the rest. -/
def digitRun (digit? : Char → Option Nat) : List Char → List Nat × List Char
  | [] => ([], [])
  | c :: cs =>
    match digit? c with
    | none => ([], c :: cs)
    | some d =>
      match cs with
      | '_' :: rest =>
        if (rest.head?.bind digit?).isSome then
          let run := digitRun digit? rest
          (d :: run.1, run.2)
        else ([d], cs)
      | cs =>
        let run := digitRun digit? cs
        (d :: run.1, run.2)

/-- Whether the text starts with a minus, and what follows an optional sign. -/
def sign : List Char → Bool × List Char
  | '-' :: rest => (true, rest)
  | '+' :: rest => (false, rest)
  | cs => (false, cs)

def signed (negative : Bool) (n : Nat) : Int := if negative then -n else n

/-- A sign and digits, and the text after them. -/
def integerRun? (digit? : Char → Option Nat) (cs : List Char) : Option (Int × List Char) :=
  let (negative, body) := sign cs
  match digitRun digit? body with
  | ([], _) => none
  | (ds, rest) => some (signed negative (Text.ofDigits 10 ds), rest)

/-- The integer that a text writes, blanks around it aside. -/
def integer? (digit? : Char → Option Nat) (s : String) : Option Int :=
  match integerRun? digit? (Text.trim Text.isBlank s.toList) with
  | some (n, []) => some n
  | _ => none

/-- The text after a letter `e` in either case: an exponent, nothing else. -/
def exponent? (digit? : Char → Option Nat) : List Char → Option Int
  | [] => some 0
  | c :: rest =>
    if c = 'e' ∨ c = 'E' then
      match integerRun? digit? rest with
      | some (n, []) => some n
      | _ => none
    else none

/-- Digits with a point and an exponent, none of the three needed as long as there is a digit in
front of the exponent. -/
def decimal? (digit? : Char → Option Nat) (negative : Bool) (cs : List Char) : Option Binary64 :=
  let (whole, rest) := digitRun digit? cs
  let (fraction, rest) := match rest with
    | '.' :: rest => digitRun digit? rest
    | rest => ([], rest)
  if whole.isEmpty ∧ fraction.isEmpty then none
  else (exponent? digit? rest).map fun e =>
    Binary64.ofDecimal negative (Text.ofDigits 10 (whole ++ fraction)) (e - fraction.length)

/-- The number that a text writes, blanks around it aside; infinity and not-a-number have names,
in any case. -/
def number? (digit? : Char → Option Nat) (s : String) : Option Binary64 :=
  let (negative, body) := sign (Text.trim Text.isBlank s.toList)
  let name := String.ofList (body.map Char.toLower)
  if name = "inf" ∨ name = "infinity" then some (Binary64.infinity negative)
  else if name = "nan" then some Binary64.nan
  else decimal? digit? negative body

end BlueprintPatch.Numeral

import BlueprintPatch.Json.Fault
import BlueprintPatch.Json.Value
import BlueprintPatch.Text.DecimalDigit

/-! Reading of JSON text. A scan takes a value off the front of the text and returns the rest;
what it returns does not depend on what follows the value, so a value can also be read out of the
middle of a text. Beyond the standard the names of the special numbers are values, and a string
may hold half of a surrogate pair, as it is or as an escape. -/
namespace BlueprintPatch.Json

abbrev Scan (α : Type) := Except Fault (α × Points)

def isBlank (c : CodePoint) : Bool :=
  c = .char ' ' || c = .char '\t' || c = .char '\n' || c = .char '\r'

def skipBlank (cs : Points) : Points := cs.dropWhile isBlank

/-- A piece of a string: a code point, or the unit that an escape with four digits gives. -/
inductive Piece
  | point (c : CodePoint)
  | unit (n : Nat)
deriving DecidableEq, Repr

def simpleEscape? : Char → Option Char
  | '"' => some '"'
  | '\\' => some '\\'
  | '/' => some '/'
  | 'b' => some '\x08'
  | 'f' => some '\x0c'
  | 'n' => some '\n'
  | 'r' => some '\r'
  | 't' => some '\t'
  | _ => none

def hexUnit? (a b c d : CodePoint) : Option Nat :=
  ([a, b, c, d].mapM fun (p : CodePoint) => p.char?.bind Text.hexDigit?).map (Text.ofDigits 16)

/-- The pieces up to the closing quote. `opening` is the number of code points left at the opening
quote, which is where a string without an end is reported. A digit escape needs a code point
after its digits. -/
def pieces (opening : Nat) : Points → Scan (List Piece)
  | [] => .error (.malformed .unterminatedString opening)
  | .char '"' :: rest => .ok ([], rest)
  | [.char '\\'] => .error (.malformed .unterminatedString opening)
  | .char '\\' :: .char 'u' :: a :: b :: c :: d :: e :: rest =>
    match hexUnit? a b c d with
    | none => .error (.malformed .badUnicodeEscape (rest.length + 6))
    | some n => (pieces opening (e :: rest)).map fun r => (.unit n :: r.1, r.2)
  | .char '\\' :: c :: rest =>
    if c = .char 'u' then .error (.malformed .badUnicodeEscape (rest.length + 1))
    else match c.char?.bind simpleEscape? with
      | none => .error (.malformed .badEscape (rest.length + 2))
      | some e => (pieces opening rest).map fun r => (.point (.char e) :: r.1, r.2)
  | c :: rest =>
    if c.code < 0x20 then .error (.malformed .controlCharacter (rest.length + 1))
    else (pieces opening rest).map fun r => (.point c :: r.1, r.2)

def isHighSurrogate (n : Nat) : Bool := 0xD800 ≤ n && n < 0xDC00

def isLowSurrogate (n : Nat) : Bool := 0xDC00 ≤ n && n < 0xE000

/-- The text of the pieces. Two units in order that are the halves of a pair make one character; a
half that stands alone stays. -/
def join : List Piece → Points
  | [] => []
  | .point c :: rest => c :: join rest
  | .unit n :: .unit m :: rest =>
    if isHighSurrogate n && isLowSurrogate m then
      .char (Char.ofNat (0x10000 + (n - 0xD800) * 0x400 + (m - 0xDC00))) :: join rest
    else .ofUnit n :: join (.unit m :: rest)
  | .unit n :: rest => .ofUnit n :: join rest

/-- The string whose opening quote has just been passed. -/
def stringBody (cs : Points) : Scan Points :=
  (pieces (cs.length + 1) cs).map fun r => (join r.1, r.2)

def spanDigits (cs : Points) : Points × Points :=
  (cs.takeWhile CodePoint.isDigit, cs.dropWhile CodePoint.isDigit)

def natOfDigits (ds : Points) : Nat :=
  Text.ofDigits 10 (ds.map fun c => c.code - '0'.toNat)

def minus : Points → Bool × Points
  | .char '-' :: rest => (true, rest)
  | cs => (false, cs)

/-- The digits in front of a point: a zero stands alone. -/
def wholePart (cs : Points) : Points × Points :=
  match cs with
  | .char '0' :: rest => ([.char '0'], rest)
  | cs => spanDigits cs

/-- A point and digits; a point without a digit is left in the text. -/
def fractionPart? : Points → Option (Points × Points)
  | .char '.' :: rest => if (spanDigits rest).1.isEmpty then none else some (spanDigits rest)
  | _ => none

def exponentSign : Points → Bool × Points
  | .char '-' :: rest => (true, rest)
  | .char '+' :: rest => (false, rest)
  | cs => (false, cs)

/-- An exponent; a letter `e` without digits is left in the text. -/
def exponentPart? : Points → Option (Int × Points)
  | c :: rest =>
    let (negative, body) := exponentSign rest
    let (ds, rest) := spanDigits body
    if (c = .char 'e' ∨ c = .char 'E') ∧ ¬ ds.isEmpty then
      let n : Int := natOfDigits ds
      some (if negative then -n else n, rest)
    else none
  | [] => none

/-- A number, an integer if it has neither a fraction nor an exponent. -/
def number (cs : Points) : Scan Json :=
  let (negative, body) := minus cs
  let (whole, rest) := wholePart body
  if whole.isEmpty then .error (.malformed .expectingValue cs.length)
  else
    let fraction := fractionPart? rest
    let rest := (fraction.map (·.2)).getD rest
    let exponent := exponentPart? rest
    let rest := (exponent.map (·.2)).getD rest
    if fraction.isNone ∧ exponent.isNone then
      if maxDigits < whole.length then .error (.oversizedInteger whole.length)
      else
        let n : Int := natOfDigits whole
        .ok (.int (if negative then -n else n), rest)
    else
      let places := (fraction.map (·.1)).getD []
      let shift := (exponent.map (·.1)).getD 0
      .ok (.float (Binary64.ofDecimal negative (natOfDigits (whole ++ places))
        (shift - places.length)), rest)

/-- The values that are written by a name. -/
def namedValues : List (String × Json) :=
  [("null", .null), ("true", .bool true), ("false", .bool false), ("NaN", .float .nan),
   ("Infinity", .float (.infinity false)), ("-Infinity", .float (.infinity true))]

def named? (cs : Points) : Option (Json × Points) :=
  namedValues.findSome? fun p =>
    if (Points.ofString p.1).isPrefixOf cs then
      some (p.2, cs.drop (Points.ofString p.1).length)
    else none

/-- The items of an array from the first one on, for a scan `item` of one. Each item and the
comma after it take code points, so a bound of the length of the text is never reached. -/
def items (item : Points → Scan Json) : Nat → Points → Scan (List Json)
  | 0, cs => .error (.malformed .expectingValue cs.length)
  | bound + 1, cs =>
    (item cs).bind fun (v, rest) =>
      match skipBlank rest with
      | .char ']' :: rest => .ok ([v], rest)
      | .char ',' :: rest => (items item bound (skipBlank rest)).map fun r => (v :: r.1, r.2)
      | rest => .error (.malformed .expectingComma rest.length)

def array (item : Points → Scan Json) (cs : Points) : Scan Json :=
  match skipBlank cs with
  | .char ']' :: rest => .ok (.arr [], rest)
  | cs => (items item cs.length cs).map fun r => (.arr r.1, r.2)

/-- A name with halves of surrogate pairs is spelt out; nobody asks for a field of such a name. -/
def name (cs : Points) : Scan String :=
  match cs with
  | .char '"' :: rest => (stringBody rest).map fun r => (r.1.spelt, r.2)
  | cs => .error (.malformed .expectingName cs.length)

def colon (cs : Points) : Except Fault Points :=
  match skipBlank cs with
  | .char ':' :: rest => .ok (skipBlank rest)
  | rest => .error (.malformed .expectingColon rest.length)

def member (item : Points → Scan Json) (cs : Points) : Scan (String × Json) :=
  (name cs).bind fun (key, rest) =>
    (colon rest).bind fun rest =>
      (item rest).map fun r => ((key, r.1), r.2)

/-- The members of an object from the first name on. -/
def members (item : Points → Scan Json) : Nat → Points → Scan (List (String × Json))
  | 0, cs => .error (.malformed .expectingName cs.length)
  | bound + 1, cs =>
    (member item cs).bind fun (m, rest) =>
      match skipBlank rest with
      | .char '}' :: rest => .ok ([m], rest)
      | .char ',' :: rest => (members item bound (skipBlank rest)).map fun r => (m :: r.1, r.2)
      | rest => .error (.malformed .expectingComma rest.length)

def object (item : Points → Scan Json) (cs : Points) : Scan Json :=
  match skipBlank cs with
  | .char '}' :: rest => .ok (.obj [], rest)
  | cs => (members item cs.length cs).map fun r => (.obj (Fields.ofAssignments r.1), r.2)

/-- The value at the front of the text, with at most `depth` containers around one another. -/
def value : Nat → Points → Scan Json
  | _, .char '"' :: rest => (stringBody rest).map fun r => (ofPoints r.1, r.2)
  | 0, .char '[' :: _ => .error (.tooDeep .array)
  | 0, .char '{' :: _ => .error (.tooDeep .object)
  | depth + 1, .char '[' :: rest => array (value depth) rest
  | depth + 1, .char '{' :: rest => object (value depth) rest
  | _, cs =>
    match named? cs with
    | some r => .ok r
    | none => number cs

/-- How many containers may stand around one another. -/
def maxDepth : Nat := 990

/-- The value at the front of the text, which is not to start with a blank. -/
def readFront (cs : Points) : Scan Json := value maxDepth cs

/-- The one value that the text holds, blanks around it aside. -/
def readPoints (cs : Points) : Except Fault Json :=
  match cs with
  | .char '\uFEFF' :: _ => .error (.malformed .byteOrderMark cs.length)
  | cs =>
    (readFront (skipBlank cs)).bind fun (v, rest) =>
      match skipBlank rest with
      | [] => .ok v
      | rest => .error (.malformed .extraData rest.length)

def read (text : String) : Except Fault Json := readPoints (.ofString text)

end BlueprintPatch.Json

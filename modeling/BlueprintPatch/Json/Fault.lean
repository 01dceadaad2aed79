/-! Why a text is no JSON document, and how that is said. -/
namespace BlueprintPatch.Json

/-- What the grammar wanted where it stopped. -/
inductive Complaint
  | expectingValue
  | expectingName
  | expectingColon
  | expectingComma
  | unterminatedString
  | controlCharacter
  | badEscape
  | badUnicodeEscape
  | extraData
  | byteOrderMark
deriving DecidableEq, Repr

inductive Container
  | array
  | object
deriving DecidableEq, Repr

/-- A breach of the grammar names its place by the number of characters that are left there. An
integer may have too many digits, and containers may nest too deep. -/
inductive Fault
  | malformed (complaint : Complaint) (left : Nat)
  | oversizedInteger (digits : Nat)
  | tooDeep (container : Container)
deriving DecidableEq, Repr

def Complaint.message : Complaint → String
  | .expectingValue => "Expecting value"
  | .expectingName => "Expecting property name enclosed in double quotes"
  | .expectingColon => "Expecting ':' delimiter"
  | .expectingComma => "Expecting ',' delimiter"
  | .unterminatedString => "Unterminated string starting at"
  | .controlCharacter => "Invalid control character at"
  | .badEscape => "Invalid \\escape"
  | .badUnicodeEscape => "Invalid \\uXXXX escape"
  | .extraData => "Extra data"
  | .byteOrderMark => "Unexpected UTF-8 BOM (decode using utf-8-sig)"

def Container.name : Container → String
  | .array => "array"
  | .object => "object"

/-- The greatest number of digits that an integer may have. -/
def maxDigits : Nat := 4300

/-- The place after the characters `before`: lines and columns count from one. -/
def placeAfter (before : List Char) : String :=
  let line := before.count '\n' + 1
  let column := (before.reverse.takeWhile (· ≠ '\n')).length + 1
  "line " ++ toString line ++ " column " ++ toString column
    ++ " (char " ++ toString before.length ++ ")"

/-- What is said of an integer with too many digits; `detail` says more about it. -/
def oversizedText (detail : String) : String :=
  "Exceeds the limit (" ++ toString maxDigits ++ " digits) for integer string conversion" ++ detail
    ++ "; use sys.set_int_max_str_digits() to increase the limit"

def Fault.message (text : List Char) : Fault → String
  | .malformed complaint left =>
    complaint.message ++ ": " ++ placeAfter (text.take (text.length - left))
  | .oversizedInteger digits => oversizedText (": value has " ++ toString digits ++ " digits")
  | .tooDeep container =>
    "maximum recursion depth exceeded while decoding a JSON " ++ container.name
      ++ " from a unicode string"

end BlueprintPatch.Json

import BlueprintPatch.Json.Fault
import BlueprintPatch.Json.Value
import BlueprintPatch.Number.Shortest
import BlueprintPatch.Text.DecimalDigit

/-! Writing of JSON text in ASCII: other characters are written as escapes, one for each unit of
their UTF-16 form. A value is written token by token, for an integer may have too many digits. -/
namespace BlueprintPatch.Json

/-- On one line, or every item on a line of its own, two blanks deeper than its container. -/
inductive Style
  | line
  | spread
deriving DecidableEq, Repr

def unitEscape (n : Nat) : List Char := '\\' :: 'u' :: Text.hex 4 n

def escapeChar (c : Char) : List Char :=
  match c with
  | '"' => ['\\', '"']
  | '\\' => ['\\', '\\']
  | '\n' => ['\\', 'n']
  | '\r' => ['\\', 'r']
  | '\t' => ['\\', 't']
  | '\x08' => ['\\', 'b']
  | '\x0c' => ['\\', 'f']
  | c =>
    let n := c.toNat
    if 0x20 ≤ n ∧ n < 0x7F then [c]
    else if n < 0x10000 then unitEscape n
    else unitEscape (0xD800 + (n - 0x10000) / 0x400) ++ unitEscape (0xDC00 + (n - 0x10000) % 0x400)

def escapePoint : CodePoint → List Char
  | .char c => escapeChar c
  | p => unitEscape p.code

def writePoints (ps : Points) : List Char := '"' :: ps.flatMap escapePoint ++ ['"']

def writeString (s : String) : List Char := writePoints (.ofString s)

theorem writeString_eq (s : String) :
    writeString s = '"' :: (s.toList.flatMap escapeChar ++ ['"']) := by
  simp [writeString, writePoints, Points.ofString, List.flatMap_map, escapePoint]

def numberNames : SpecialTexts := ⟨"NaN", "Infinity"⟩

/-- A piece of written text. Integers are pieces of their own. -/
inductive Token
  | text (cs : List Char)
  | integer (n : Int)
deriving DecidableEq, Repr

namespace Token

def chars : Token → List Char
  | text cs => cs
  | integer n => (toString n).toList

/-- Whether this is an integer with too many digits. -/
def isOversized : Token → Bool
  | text _ => false
  | integer n => pow10 maxDigits ≤ n.natAbs

end Token

def lineBreak (depth : Nat) : List Char := '\n' :: List.replicate (2 * depth) ' '

/-- Items between brackets; `depth` is that of the container. -/
def bracketed (style : Style) (depth : Nat) (opening closing : Char) (items : List (List Token)) :
    List Token :=
  if items.isEmpty then [.text [opening, closing]]
  else match style with
    | .line => .text [opening] :: [.text [',', ' ']].intercalate items ++ [.text [closing]]
    | .spread =>
      .text (opening :: lineBreak (depth + 1))
        :: [.text (',' :: lineBreak (depth + 1))].intercalate items
        ++ [.text (lineBreak depth ++ [closing])]

mutual

def tokens (style : Style) (depth : Nat) : Json → List Token
  | .null => [.text "null".toList]
  | .bool b => [.text (if b then "true" else "false").toList]
  | .int n => [.integer n]
  | .float x => [.text (x.text numberNames).toList]
  | .str s => [.text (writeString s)]
  | @brokenStr s => [.text (writePoints s.val)]
  | .arr items => bracketed style depth '[' ']' (itemTokens style (depth + 1) items)
  | .obj fields => bracketed style depth '\x7b' '\x7d' (fieldTokens style (depth + 1) fields)

def itemTokens (style : Style) (depth : Nat) : List Json → List (List Token)
  | [] => []
  | v :: rest => tokens style depth v :: itemTokens style depth rest

def fieldTokens (style : Style) (depth : Nat) : List (String × Json) → List (List Token)
  | [] => []
  | (k, v) :: rest =>
    (.text (writeString k ++ [':', ' ']) :: tokens style depth v) :: fieldTokens style depth rest

end

def ofTokens (ts : List Token) : String := String.ofList (ts.flatMap Token.chars)

def write (style : Style) (v : Json) : String := ofTokens (tokens style 0 v)

/-- The text up to the first integer that has too many digits. -/
def writeFront (style : Style) (v : Json) : String :=
  ofTokens ((tokens style 0 v).takeWhile (!·.isOversized))

/-- Whether no integer has too many digits. -/
def isWritable (style : Style) (v : Json) : Bool := (tokens style 0 v).all (!·.isOversized)

theorem writeFront_of_isWritable {style : Style} {v : Json} (h : v.isWritable style = true) :
    v.writeFront style = v.write style := by
  have whole : (tokens style 0 v).takeWhile (!·.isOversized) = tokens style 0 v := by
    simpa using @List.takeWhile_append_of_pos _ _ _ [] (List.all_eq_true.1 h)
  rw [writeFront, whole, write]

end BlueprintPatch.Json

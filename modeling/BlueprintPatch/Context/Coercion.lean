import BlueprintPatch.Json.Literal
import BlueprintPatch.Number.Numeral

/-! What the fields of an editor export are taken for when they are not of the wanted type: text
that writes a number is that number, a text is the list of its characters, an object the list of
its names. -/
namespace BlueprintPatch

/-- Why a value cannot be taken for another type; `type` is the type that it has. -/
inductive CoercionError
  | badNumberText (s : Points)
  | notNumber (type : String)
  | integerTooLarge
  | notIterable (type : String)
  | unhashable (type : String)
deriving DecidableEq, Repr

def CoercionError.message : CoercionError → String
  | .badNumberText s => "could not convert string to float: " ++ Text.quotedPoints s
  | .notNumber type => "float() argument must be a string or a real number, not '" ++ type ++ "'"
  | .integerTooLarge => "int too large to convert to float"
  | .notIterable type => "'" ++ type ++ "' object is not iterable"
  | .unhashable type => "unhashable type: '" ++ type ++ "'"

namespace Json

def toNumber : Json → Except CoercionError Binary64
  | .float x => .ok x
  | .bool b => .ok (if b then Binary64.ofRatio false 1 1 else Binary64.zero)
  | .int n => match Binary64.ofInt? n with
    | some x => .ok x
    | none => .error .integerTooLarge
  | .str s => match Numeral.number? Text.decimalDigit? s with
    | some x => .ok x
    | none => .error (.badNumberText (.ofString s))
  | @brokenStr s => .error (.badNumberText s.val)
  | v => .error (.notNumber v.typeName)

def toItems : Json → Except CoercionError (List Json)
  | .arr items => .ok items
  | .obj fields => .ok (fields.map fun p => .str p.1)
  | .str s => .ok (s.toList.map fun c => .str c.toString)
  | @brokenStr s => .ok (s.val.map fun p => ofPoints [p])
  | v => .error (.notIterable v.typeName)

end Json

/-- The first of the values that counts as true; the last one if none does. -/
def firstTruthy (v : Json) : List Json → Json
  | [] => v
  | w :: rest => if v.isTruthy then v else firstTruthy w rest

end BlueprintPatch

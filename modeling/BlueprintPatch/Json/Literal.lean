import BlueprintPatch.Json.Value
import BlueprintPatch.Number.Shortest
import BlueprintPatch.Text.Quoted

/-! The text that stands for a value where only text is kept, as in the default of a pin: a
string is its own text, any other value is written as a literal. -/
namespace BlueprintPatch.Json

def literalNumbers : SpecialTexts := ⟨"nan", "inf"⟩

mutual

def literal : Json → String
  | .null => "None"
  | .bool b => if b then "True" else "False"
  | .int n => toString n
  | .float x => x.text literalNumbers
  | .str s => Text.quoted s
  | @brokenStr s => Text.quotedPoints s.val
  | .arr items => "[" ++ ", ".intercalate (literalItems items) ++ "]"
  | .obj fields => "\x7b" ++ ", ".intercalate (literalFields fields) ++ "\x7d"

def literalItems : List Json → List String
  | [] => []
  | v :: rest => literal v :: literalItems rest

def literalFields : List (String × Json) → List String
  | [] => []
  | (k, v) :: rest => (Text.quoted k ++ ": " ++ literal v) :: literalFields rest

end

def asText : Json → String
  | .str s => s
  | @brokenStr s => Points.spelt s.val
  | v => literal v

end BlueprintPatch.Json

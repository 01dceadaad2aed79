import BlueprintPatch.Json.Value
import BlueprintPatch.Record.NumberText

/-! What a value may be to count as a text, a number or a flag, and how a record asks for the
fields of an object. Numbers and flags may be written as text. -/
namespace BlueprintPatch

abbrev Rule (α : Type) := Json → Checked α

namespace Rule

variable {α : Type}

def text : Rule String
  | .str s => .ok s
  | .brokenStr => .fail .stringUnicode
  | _ => .fail .stringType

def nonemptyText : Rule String
  | .str s => if s = "" then .fail .stringTooShort else .ok s
  | v => text v

def optional (rule : Rule α) : Rule (Option α)
  | .null => .ok none
  | v => some <$> rule v

def itemsFrom (rule : Rule α) : Nat → List Json → Checked (List α)
  | _, [] => .ok []
  | i, v :: rest => List.cons <$> (rule v).within (toString i) <*> itemsFrom rule (i + 1) rest

def list (rule : Rule α) : Rule (List α)
  | .arr items => itemsFrom rule 0 items
  | _ => .fail .listType

def record (check : Fields → Checked α) : Rule α
  | .obj fields => check fields
  | _ => .fail .modelType

/-- One of finitely many names. -/
def choice (ofName? : String → Option α) : Rule α
  | .str s => match ofName? s with
    | some a => .ok a
    | none => .fail .choice
  | _ => .fail .choice

/-- A binary number is an integer if it is equal to one of less than 64 bits. -/
def integer : Rule Int
  | .int n => .ok n
  | .bool b => .ok (if b then 1 else 0)
  | .float x =>
    if !x.isFinite then .fail .finiteNumber
    else match x.toInt? with
      | none => .fail .intFromFloat
      | some n => if n.natAbs < pow2 63 then .ok n else .fail .intParsingSize
  | .str s => NumberText.integer s
  | _ => .fail .intType

def number : Rule Binary64
  | .float x => .ok x
  | .bool b => .ok (if b then Binary64.ofRatio false 1 1 else Binary64.zero)
  | .int n => match Binary64.ofInt? n with
    | some x => .ok x
    | none => .fail .floatType
  | .str s => match NumberText.number? s with
    | some x => .ok x
    | none => .fail .floatParsing
  | _ => .fail .floatType

def falseNames : List String := ["0", "off", "f", "false", "n", "no"]

def trueNames : List String := ["1", "on", "t", "true", "y", "yes"]

/-- Whether the integer is one of 64 bits. -/
def isWord (n : Int) : Bool := -pow2 63 ≤ n && n < pow2 63

def flagOfInt (n : Int) : Checked Bool :=
  if n = 0 then .ok false else if n = 1 then .ok true else .fail .boolParsing

/-- A number is a flag if it is 0 or 1; integers of more than 64 bits do not even count as
numbers. -/
def flag : Rule Bool
  | .bool b => .ok b
  | .int n => if isWord n then flagOfInt n else .fail .boolType
  | .float x => match integer (.float x) with
    | .ok n => flagOfInt n
    | .errors _ => .fail .boolType
  | .str s =>
    let name := String.ofList (s.toList.map Char.toLower)
    if name ∈ falseNames then .ok false
    else if name ∈ trueNames then .ok true
    else .fail .boolParsing
  | _ => .fail .boolType

end Rule

namespace Fields

variable {α : Type}

/-- The value that `rule` takes from the field `name`. -/
def need (fields : Fields) (name : String) (rule : Rule α) : Checked α :=
  (match fields.get? name with
    | some v => rule v
    | none => .fail .missing).within name

/-- As `need`, but an absent field stands for `default`. -/
def take (fields : Fields) (name : String) (default : α) (rule : Rule α) : Checked α :=
  match fields.get? name with
  | some v => (rule v).within name
  | none => .ok default

end Fields

end BlueprintPatch

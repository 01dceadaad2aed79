import BlueprintPatch.Number.Binary64
import BlueprintPatch.Text.CodePoint

/-! JSON values. Integers and binary numbers are kept apart, an object keeps its fields in the
order of the text, and a string that holds half of a surrogate pair is kept apart from text. -/
namespace BlueprintPatch

inductive Json
  | null
  | bool (b : Bool)
  | int (n : Int)
  | float (x : Binary64)
  | str (s : String)
  | brokenStr {s : BrokenText}
  | arr (items : List Json)
  | obj (fields : List (String × Json))
deriving Inhabited, Repr

/-- The fields of an object in order; no name occurs twice in what the reader makes. -/
abbrev Fields := List (String × Json)

namespace Fields

def get? (name : String) (fields : Fields) : Option Json := fields.lookup name

def has (name : String) (fields : Fields) : Bool := (fields.get? name).isSome

/-- Gives `name` the value `v`: at its place if it has one, at the end otherwise. -/
def put (name : String) (v : Json) : Fields → Fields
  | [] => [(name, v)]
  | (n, w) :: rest => if n = name then (n, v) :: rest else (n, w) :: put name v rest

def erase (name : String) (fields : Fields) : Fields := fields.filter (·.1 ≠ name)

/-- The fields that result from assigning each pair in turn. -/
def ofAssignments (pairs : List (String × Json)) : Fields :=
  pairs.foldl (fun fields p => fields.put p.1 p.2) []

@[simp] theorem get?_nil (name : String) : get? name [] = none := rfl

theorem get?_cons (name n : String) (w : Json) (rest : Fields) :
    get? name ((n, w) :: rest) = if name = n then some w else rest.get? name := by
  by_cases h : name = n
  · subst h; simp [get?, List.lookup_cons_self]
  · have h' : (name == n) = false := by simpa using h
    simp [get?, List.lookup_cons, h, h']

@[simp] theorem get?_put_self (name : String) (v : Json) (fields : Fields) :
    (fields.put name v).get? name = some v := by
  induction fields with
  | nil => simp [put, get?_cons]
  | cons p rest ih =>
    obtain ⟨n, w⟩ := p
    by_cases h : n = name
    · simp [put, h, get?_cons]
    · have h' : ¬ name = n := fun e => h e.symm
      simpa [put, h, get?_cons, h'] using ih

theorem get?_put_of_ne {name other : String} (h : other ≠ name) (v : Json) (fields : Fields) :
    (fields.put name v).get? other = fields.get? other := by
  induction fields with
  | nil => simp [put, get?_cons, h]
  | cons p rest ih =>
    obtain ⟨n, w⟩ := p
    by_cases hn : n = name
    · subst hn; simp [put, get?_cons, h]
    · simp [put, hn, get?_cons, ih]

end Fields

namespace Json

/-- Whether a value counts as true: all do but null, false, zero and what is empty. -/
def isTruthy : Json → Bool
  | .null => false
  | .bool b => b
  | .int n => n != 0
  | .float x => !x.isZero
  | .str s => s != ""
  | .brokenStr => true
  | .arr items => !items.isEmpty
  | .obj fields => !fields.isEmpty

/-- The name of the type of a value, as messages give it. -/
def typeName : Json → String
  | .null => "NoneType"
  | .bool _ => "bool"
  | .int _ => "int"
  | .float _ => "float"
  | .str _ => "str"
  | .brokenStr => "str"
  | .arr _ => "list"
  | .obj _ => "dict"

def text? : Json → Option String
  | .str s => some s
  | _ => none

/-- The code points of a string. -/
def points? : Json → Option Points
  | .str s => some (Points.ofString s)
  | @brokenStr s => some s.val
  | _ => none

/-- The string of the code points. -/
def ofPoints (ps : Points) : Json :=
  match h : ps.text? with
  | some s => .str s
  | none => @brokenStr ⟨ps, h⟩

/-- A string with halves of surrogate pairs is spelt out. -/
def spelt? : Json → Option String
  | .str s => some s
  | @brokenStr s => some (Points.spelt s.val)
  | _ => none

def fields? : Json → Option Fields
  | .obj fields => some fields
  | _ => none

@[simp]
theorem ofPoints_ofString (s : String) : ofPoints (.ofString s) = .str s := by
  unfold ofPoints
  split
  · next t ht =>
    rw [Points.text?_ofString] at ht
    rw [Option.some.inj ht]
  · next ht => simp at ht

@[simp]
theorem fields?_ofPoints (ps : Points) : (ofPoints ps).fields? = none := by
  unfold ofPoints
  split <;> rfl

@[simp]
theorem points?_ofPoints (ps : Points) : (ofPoints ps).points? = some ps := by
  unfold ofPoints
  split
  · next t ht => rw [points?, Points.ofString_of_text? ht]
  · rfl

end Json

end BlueprintPatch

import BlueprintPatch.Graph.Identity
import BlueprintPatch.Graph.Kind

/-! Pins, the typed points at which nodes are linked. A link is the id of the other pin, held at
both ends. -/
namespace BlueprintPatch

def wildcardType : String := "wildcard"

def execType : String := "exec"

structure Pin where
  handle : Handle
  id : String
  name : String
  direction : PinDirection
  pinType : String
  defaultValue : String
  linkedTo : List String
deriving DecidableEq, Repr

namespace Pin

/-- Whether the pin carries control flow and not a value. -/
def isExec (p : Pin) : Bool := p.pinType = execType

/-- The pin with a link to `id`, unless it has one. -/
def link (id : String) (p : Pin) : Pin :=
  if id ∈ p.linkedTo then p else { p with linkedTo := p.linkedTo ++ [id] }

/-- The pin without its links to any of `ids`. -/
def unlink (ids : List String) (p : Pin) : Pin :=
  { p with linkedTo := p.linkedTo.filter (· ∉ ids) }

/-- The pin in the place of `old`: it takes over the id, the links and the default. -/
def succeed (p old : Pin) : Pin :=
  { p with id := old.id, linkedTo := old.linkedTo, defaultValue := old.defaultValue }

end Pin

/-- What a node's kind says of one of its pins. -/
structure PinSpec where
  name : String
  direction : PinDirection
  pinType : String
deriving DecidableEq, Repr

/-- The pins that a kind of node has from the start, in order; a node of the generic kind has
whatever pins it was given. -/
def NodeKind.pinSpecs? (member valueType : String) : NodeKind → Option (List PinSpec)
  | .variableGet => some [⟨member, .output, valueType⟩]
  | .variableSet => some
      [⟨"execute", .input, execType⟩, ⟨"then", .output, execType⟩,
       ⟨member, .input, valueType⟩, ⟨"Output_Get", .output, valueType⟩]
  | .functionCall => some
      [⟨"execute", .input, execType⟩, ⟨"then", .output, execType⟩,
       ⟨"self", .input, "object"⟩, ⟨"ReturnValue", .output, wildcardType⟩]
  | .event => some [⟨"then", .output, execType⟩]
  | .generic => none

/-- A new pin after `s`, made with number `n` of the supply. -/
def PinSpec.pin (s : PinSpec) (n : Nat) : Pin :=
  ⟨n, generatedId n, s.name, s.direction, s.pinType, "", []⟩

/-- New pins after the specs, made with the numbers from `n` on. -/
def newPins (n : Nat) (specs : List PinSpec) : List Pin :=
  specs.mapIdx fun i s => s.pin (n + i)

@[simp] theorem length_newPins (n : Nat) (specs : List PinSpec) :
    (newPins n specs).length = specs.length := by simp [newPins]

end BlueprintPatch

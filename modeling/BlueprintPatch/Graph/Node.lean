import BlueprintPatch.Graph.Pin
import BlueprintPatch.Number.Binary64

/-! Nodes and the rebuilding of their pins. Rebuilding gives a node the pins of its kind; a new
pin takes the place of an old one that matches it, and no old pin is taken twice. -/
namespace BlueprintPatch

structure Node where
  handle : Handle
  name : String
  guid : String
  kind : NodeKind
  memberName : Option String
  posX : Binary64
  posY : Binary64
  pins : List Pin
deriving DecidableEq, Repr

/-- The first element that satisfies `p`, and the others. -/
def takeFirst? {α : Type} (p : α → Bool) : List α → Option (α × List α)
  | [] => none
  | a :: rest =>
    if p a then some (a, rest) else (takeFirst? p rest).map fun r => (r.1, a :: r.2)

namespace Node

def isVariable (node : Node) : Bool := node.kind.isVariable

/-- Whether `key` is the name or the guid of the node. -/
def answersTo (key : String) (node : Node) : Bool := node.name = key || node.guid = key

def findPinIdx? (name : String) (direction : Option PinDirection) (node : Node) : Option Nat :=
  node.pins.findIdx? fun p => p.name = name && direction.all (· = p.direction)

/-- The node with the new pins of its kind, made with the numbers from `n` on. -/
def allocate (valueType : String) (n : Nat) (node : Node) : Node :=
  match node.kind.pinSpecs? (node.memberName.getD "") valueType with
  | some specs => { node with pins := newPins n specs }
  | none => node

/-- The names under which an old pin may be the predecessor of a new one called `name`. The pin
named as the member is also known under the member's previous name. -/
def formerNames (memberName previous : Option String) (name : String) : List String :=
  match previous with
  | some former => if former ≠ "" ∧ memberName = some name then [name, former] else [name]
  | none => [name]

/-- Old and new agree in direction and in being for control flow or for a value, so a variable
called like a control pin does not take that pin over. -/
def precedes (names : List String) (new old : Pin) : Bool :=
  old.direction = new.direction && old.name ∈ names && old.isExec = new.isExec

/-- Each new pin in turn takes the place of the first matching old pin that is left. -/
def carryOver (names : String → List String) : List Pin → List Pin → List Pin
  | [], _ => []
  | new :: rest, olds =>
    match takeFirst? (precedes (names new.name) new) olds with
    | some (old, left) => new.succeed old :: carryOver names rest left
    | none => new :: carryOver names rest olds

/-- The node with the pins of its kind rebuilt; `previous` is the member name it had before. -/
def reconstruct (valueType : String) (previous : Option String) (n : Nat) (node : Node) : Node :=
  if node.kind = .generic then node
  else
    let fresh := (node.allocate valueType n).pins
    { node with pins := carryOver (formerNames node.memberName previous) fresh node.pins }

end Node

end BlueprintPatch

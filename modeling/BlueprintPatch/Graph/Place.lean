import BlueprintPatch.Graph.Model
import BlueprintPatch.Text.Quoted

/-! Places: where in the model an object stands, and the objects that a user names by place, name
or guid. -/
namespace BlueprintPatch

/-- A blueprint in load order, and the way down from it. -/
inductive Place
  | blueprint (b : Nat)
  | member (b i : Nat)
  | graph (b g : Nat)
  | node (b g n : Nat)
  | pin (b g n p : Nat)
deriving DecidableEq, Repr

/-- The name of a thing, or its place among its like. -/
inductive Reference
  | index (i : Int)
  | name (s : String)
deriving DecidableEq, Repr

def Reference.text : Reference → String
  | .index i => toString i
  | .name s => s

/-- What was asked for and is not there. -/
inductive Missing
  | blueprint (r : Reference)
  | member (name : String)
  | graph (r : Reference)
  | node (key : String)
  | pin (r : Reference)
  | held (name : String)
deriving DecidableEq, Repr

def Missing.message : Missing → String
  | .blueprint r => "blueprint " ++ r.text
  | .member name => "variable " ++ name
  | .graph r => "graph " ++ r.text
  | .node key => "node " ++ key
  | .pin r => "pin " ++ r.text
  | .held name => Text.quoted name

/-- The element at an index of a list. -/
def atIndex? {α : Type} (i : Int) (as : List α) : Option α :=
  if i < 0 then none else as[i.toNat]?

namespace Node

def pinAt? (r : Reference) (direction : Option PinDirection) (node : Node) : Option Pin :=
  match r with
  | .index i => atIndex? i node.pins
  | .name s => (node.findPinIdx? s direction).bind (node.pins[·]?)

/-- The places of the pins of the node at a place. -/
def places (b g n : Nat) (node : Node) : List (Handle × Place) :=
  (node.handle, .node b g n) :: node.pins.mapIdx fun p pin => (pin.handle, .pin b g n p)

end Node

def Graph.places (b g : Nat) (graph : Graph) : List (Handle × Place) :=
  (graph.handle, .graph b g) :: (graph.nodes.mapIdx fun n node => node.places b g n).flatten

namespace Blueprint

def graphAt? (r : Reference) (b : Blueprint) : Option Graph :=
  match r with
  | .index i => atIndex? i b.graphs
  | .name s => b.graphs.find? (·.name = s)

def places (i : Nat) (b : Blueprint) : List (Handle × Place) :=
  (b.handle, .blueprint i) :: (b.members.mapIdx fun v x => (x.handle, .member i v))
    ++ (b.graphs.mapIdx fun g graph => graph.places i g).flatten

end Blueprint

namespace Model

def blueprintAt? (r : Reference) (m : Model) : Option Blueprint :=
  match r with
  | .index i => atIndex? i m.loaded
  | .name s => m.resolve? s

/-- Every object of the loaded blueprints with its place. -/
def places (m : Model) : List (Handle × Place) := (m.loaded.mapIdx fun i b => b.places i).flatten

/-- Where an object stands; the first place, if its blueprint is loaded twice. -/
def placeOf? (h : Handle) (m : Model) : Option Place := m.places.lookup h

end Model

end BlueprintPatch

import BlueprintPatch.Graph.Draft
import Std.Data.HashSet

/-! The model: the blueprints that are loaded, in load order. Objects that were part of it and no
longer are stay known, with their content, for as long as somebody may hold on to them; they are
the same objects when a saved state brings them back. -/
namespace BlueprintPatch

/-- An object with all that it contains. -/
inductive Object
  | blueprint (b : Blueprint)
  | member (v : Variable)
  | graph (g : Graph)
  | node (x : Node)
  | pin (p : Pin)
deriving DecidableEq, Repr

namespace Object

def handle : Object → Handle
  | blueprint b => b.handle
  | member v => v.handle
  | graph g => g.handle
  | node x => x.handle
  | pin p => p.handle

def ofNode (x : Node) : List Object := node x :: x.pins.map pin

def ofGraph (g : Graph) : List Object := graph g :: g.nodes.flatMap ofNode

def ofBlueprint (b : Blueprint) : List Object :=
  blueprint b :: b.members.map member ++ b.graphs.flatMap ofGraph

/-- The object and every object inside it. -/
def parts : Object → List Object
  | blueprint b => ofBlueprint b
  | member v => [member v]
  | graph g => ofGraph g
  | node x => ofNode x
  | pin p => [pin p]

/-- The objects directly inside. -/
def children : Object → List Object
  | blueprint b => b.members.map member ++ b.graphs.map graph
  | member _ => []
  | graph g => g.nodes.map node
  | node x => x.pins.map pin
  | pin _ => []

/-- The outermost of the objects that are not in `kept`; objects nest four deep. -/
def outside (kept : Handle → Bool) : Nat → Object → List Object
  | 0, o => if kept o.handle then [] else [o]
  | depth + 1, o => if kept o.handle then o.children.flatMap (outside kept depth) else [o]

def mapNode (f : Node → Node) : Object → Object
  | blueprint b =>
    blueprint { b with graphs := b.graphs.map fun g => { g with nodes := g.nodes.map f } }
  | graph g => graph { g with nodes := g.nodes.map f }
  | node x => node (f x)
  | o => o

def mapPin (f : Pin → Pin) : Object → Object
  | pin p => pin (f p)
  | o => o.mapNode fun x => { x with pins := x.pins.map f }

end Object

structure Model where
  loaded : List Blueprint
  /-- The objects that are part of no loaded blueprint. -/
  loose : List Object
  /-- The next number of the supply. -/
  next : Nat
deriving Repr

/-- The state of the loaded blueprints at one moment, down to the pins. -/
abbrev Snapshot := List Blueprint

namespace Model

def empty : Model := ⟨[], [], 0⟩

def objects (m : Model) : List Object := m.loaded.flatMap Object.ofBlueprint ++ m.loose.flatMap (·.parts)

def object? (h : Handle) (m : Model) : Option Object := m.objects.find? (·.handle = h)

/-- The model with other contents. Whatever they leave out of the present ones becomes loose. -/
def replace (loaded : List Blueprint) (loose : List Object) (m : Model) : Model :=
  let kept := (loaded.flatMap Object.ofBlueprint ++ loose.flatMap (·.parts)).foldl
    (fun s o => s.insert o.handle) (∅ : Std.HashSet Handle)
  let left := (m.loaded.map Object.blueprint ++ m.loose).flatMap
    (Object.outside kept.contains 4)
  ⟨loaded, loose ++ left, m.next⟩

/-- The model with other blueprints loaded. -/
def setLoaded (loaded : List Blueprint) (m : Model) : Model := m.replace loaded []

/-- The model with `count` more numbers of the supply drawn. -/
def draw (count : Nat) (m : Model) : Model := { m with next := m.next + count }

/-- Makes the blueprint of a draft an object, without loading it. -/
def make (d : BlueprintDraft) (m : Model) : Blueprint × Model :=
  let (b, next) := d.make m.next
  (b, { m with next := next })

def add (b : Blueprint) (m : Model) : Model := m.setLoaded (m.loaded ++ [b])

/-- Makes the blueprint of a draft and loads it. -/
def load (d : BlueprintDraft) (m : Model) : Model :=
  let (b, m) := m.make d
  m.add b

def loadAll (ds : List BlueprintDraft) (m : Model) : Model := ds.foldl (fun m d => m.load d) m

/-- Unloads the blueprint at its first place; none if it is not loaded. -/
def remove? (h : Handle) (m : Model) : Option Model :=
  (takeFirst? (fun b : Blueprint => b.handle = h) m.loaded).map fun r => m.setLoaded r.2

/-- The blueprint with that path; failing this, the first with that name. No blueprint answers to
the empty text. -/
def resolve? (id : String) (m : Model) : Option Blueprint :=
  if id = "" then none
  else match m.loaded.find? (·.path = id) with
    | some b => some b
    | none => m.loaded.find? (·.name = id)

/-- The blueprint that has become `b`, wherever it is loaded. -/
def update (b : Blueprint) (m : Model) : Model :=
  m.setLoaded (m.loaded.map fun c => if c.handle = b.handle then b else c)

def rename (b : Blueprint) (old new : String) (m : Model) : Model :=
  m.update (b.renameVariable old new)

def rewire (b : Blueprint) (old new : String) (m : Model) : Model :=
  (m.update (b.rewire old new m.next)).draw (b.rewiringCost old)

/-- Adds a node of the kind to the first graph of `b` that satisfies `p`. -/
def createNode (b : Blueprint) (p : Graph → Bool) (kind : NodeKind) (memberName : Option String)
    (posX posY : Binary64) (m : Model) : Node × Model :=
  let node := b.newNode kind memberName posX posY m.next
  (node, (m.update (b.addNode p node)).draw (1 + node.pins.length))

def markModified (b : Blueprint) (m : Model) : Model := m.update b.markModified

/-- Removes the node from the loaded blueprint that holds it; none if there is no such. -/
def deleteNode? (h : Handle) (m : Model) : Option Model :=
  (m.loaded.findSome? (Blueprint.removeNode? fun node => node.handle = h)).map m.update

def modifyNode (h : Handle) (f : Node → Node) (m : Model) : Model :=
  let change (node : Node) := if node.handle = h then f node else node
  m.replace (m.loaded.map fun b => { b with graphs := b.graphs.map fun g =>
    { g with nodes := g.nodes.map change } }) (m.loose.map (Object.mapNode change))

def modifyPin (h : Handle) (f : Pin → Pin) (m : Model) : Model :=
  let change (p : Pin) := if p.handle = h then f p else p
  m.replace (m.loaded.map fun b => { b with graphs := b.graphs.map (Blueprint.mapPins change) })
    (m.loose.map (Object.mapPin change))

/-- Links two pins in both directions. -/
def link (a b : Pin) (m : Model) : Model :=
  (m.modifyPin a.handle (Pin.link b.id)).modifyPin b.handle (Pin.link a.id)

def snapshot (m : Model) : Snapshot := m.loaded

/-- The loaded blueprints as they were, each object with the content that it had. -/
def restore (s : Snapshot) (m : Model) : Model := m.setLoaded s

@[simp] theorem loaded_restore (s : Snapshot) (m : Model) : (m.restore s).loaded = s := rfl

end Model

end BlueprintPatch

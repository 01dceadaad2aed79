import BlueprintPatch.Graph.Node

/-! Blueprints: assets with member variables and graphs of nodes. -/
namespace BlueprintPatch

structure Graph where
  handle : Handle
  name : String
  graphType : GraphType
  nodes : List Node
deriving DecidableEq, Repr

structure Variable where
  handle : Handle
  name : String
  varType : String
  defaultValue : String
  isArray : Bool
deriving DecidableEq, Repr

structure Blueprint where
  handle : Handle
  name : String
  path : String
  parentClass : Option String
  members : List Variable
  graphs : List Graph
  modified : Bool
  modificationCount : Int
deriving DecidableEq, Repr

def total (ns : List Nat) : Nat := ns.foldr (· + ·) 0

/-- The first node of the graphs that satisfies `p`, and the graphs without it. -/
def takeNode? (p : Node → Bool) : List Graph → Option (Node × List Graph)
  | [] => none
  | g :: rest =>
    match takeFirst? p g.nodes with
    | some (node, left) => some (node, { g with nodes := left } :: rest)
    | none => (takeNode? p rest).map fun r => (r.1, g :: r.2)

namespace Blueprint

def allNodes (b : Blueprint) : List Node := b.graphs.flatMap (·.nodes)

def findVariableIdx? (name : String) (b : Blueprint) : Option Nat :=
  b.members.findIdx? (·.name = name)

def hasVariable (name : String) (b : Blueprint) : Bool := b.members.any (·.name = name)

def findGraphIdx? (name : String) (b : Blueprint) : Option Nat :=
  b.graphs.findIdx? (·.name = name)

def hasGraph (name : String) (b : Blueprint) : Bool := b.graphs.any (·.name = name)

/-- The node with the given name or guid, the first in the order of graphs and nodes. -/
def findNode? (key : String) (b : Blueprint) : Option Node := b.allNodes.find? (·.answersTo key)

/-- The type of the variable of that name; of several the last one counts. -/
def typeOf? (name : String) (b : Blueprint) : Option String :=
  (b.members.reverse.find? (·.name = name)).map (·.varType)

/-- The type of the value pins of a node for that variable. -/
def valueType (name : String) (b : Blueprint) : String := (b.typeOf? name).getD wildcardType

def markModified (b : Blueprint) : Blueprint :=
  { b with modified := true, modificationCount := b.modificationCount + 1 }

/-- The variables with the first one called `old` renamed. -/
def renameFirst (old new : String) : List Variable → List Variable
  | [] => []
  | v :: rest =>
    if v.name = old then { v with name := new } :: rest else v :: renameFirst old new rest

def renameVariable (old new : String) (b : Blueprint) : Blueprint :=
  { b with members := renameFirst old new b.members }

/-- Whether the node gets or sets the variable called `name`. -/
def refersTo (name : String) (node : Node) : Bool :=
  node.isVariable && node.memberName = some name

/-- How many numbers of the supply the rebuilding of a node takes. -/
def pinCost (node : Node) : Nat := ((node.kind.pinSpecs? "" "").map List.length).getD 0

/-- A node that refers to `old` made to refer to `new`, its pins rebuilt. -/
def rewireNode (valueType old new : String) (n : Nat) (node : Node) : Node :=
  if refersTo old node then
    { node with memberName := some new }.reconstruct valueType (some old) n
  else node

/-- How many numbers the rewiring of a node takes. -/
def rewireCost (old : String) (node : Node) : Nat := if refersTo old node then pinCost node else 0

def rewireNodes (valueType old new : String) : Nat → List Node → List Node
  | _, [] => []
  | n, node :: rest =>
    rewireNode valueType old new n node
      :: rewireNodes valueType old new (n + rewireCost old node) rest

def graphCost (old : String) (g : Graph) : Nat := total (g.nodes.map (rewireCost old))

def rewireGraphs (valueType old new : String) : Nat → List Graph → List Graph
  | _, [] => []
  | n, g :: rest =>
    { g with nodes := rewireNodes valueType old new n g.nodes }
      :: rewireGraphs valueType old new (n + graphCost old g) rest

/-- Every node that refers to `old` made to refer to `new`, with value pins of the type that `new`
has. -/
def rewire (old new : String) (n : Nat) (b : Blueprint) : Blueprint :=
  { b with graphs := rewireGraphs (b.valueType new) old new n b.graphs }

/-- How many nodes refer to a variable. -/
def references (name : String) (b : Blueprint) : Nat := b.allNodes.countP (refersTo name)

/-- How many numbers the rewiring of the blueprint takes. -/
def rewiringCost (old : String) (b : Blueprint) : Nat := total (b.graphs.map (graphCost old))

def nodeName (kind : NodeKind) (i : Nat) : String := kind.className ++ "_" ++ toString i

/-- The name of the kind with the least index that no node of the blueprint has. Of one index
more than there are nodes, one is free. -/
def freshNodeName (kind : NodeKind) (b : Blueprint) : String :=
  let taken := b.allNodes.map (·.name)
  let free := (List.range (taken.length + 1)).find? fun i => nodeName kind i ∉ taken
  nodeName kind (free.getD taken.length)

/-- A node of the kind, made with the numbers from `n` on: one for itself, the others for its
pins. -/
def newNode (kind : NodeKind) (memberName : Option String) (posX posY : Binary64) (n : Nat)
    (b : Blueprint) : Node :=
  let bare : Node := ⟨n, b.freshNodeName kind, generatedId n, kind, memberName, posX, posY, []⟩
  bare.allocate (b.valueType (memberName.getD "")) (n + 1)

/-- The first graph that satisfies `p` with the node at its end. -/
def appendNode (p : Graph → Bool) (node : Node) : List Graph → List Graph
  | [] => []
  | g :: rest =>
    if p g then { g with nodes := g.nodes ++ [node] } :: rest else g :: appendNode p node rest

def addNode (p : Graph → Bool) (node : Node) (b : Blueprint) : Blueprint :=
  { b with graphs := appendNode p node b.graphs }

def mapPins (f : Pin → Pin) (g : Graph) : Graph :=
  { g with nodes := g.nodes.map fun node => { node with pins := node.pins.map f } }

/-- The blueprint without the first node that satisfies `p` and without the links to it. -/
def removeNode? (p : Node → Bool) (b : Blueprint) : Option Blueprint :=
  (takeNode? p b.graphs).map fun (node, left) =>
    { b with graphs := left.map (mapPins (Pin.unlink (node.pins.map (·.id)))) }

end Blueprint

end BlueprintPatch

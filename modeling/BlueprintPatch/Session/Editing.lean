import BlueprintPatch.Context.Export
import BlueprintPatch.Session.Desk

/-! Actions on the model: loading and unloading, looking up, and changes by hand. -/
namespace BlueprintPatch.Session.Action

def load (d : BlueprintDraft) : Action Unit := changeModel (·.load d)

def importContext (context : Json) : Action Answer := do
  load (← ofExcept .context (Context.importContext context))
  return .nothing

def importPath : Path := Path.ofText "import.json"

/-- Puts the content into a file and loads the blueprints of the file. -/
def importFile (item : DiskItem) : Action Answer := do
  changeDesk fun d => { d with disk := d.disk.put importPath.parts item }
  let drafts ← ofExcept .file ((← desk).disk.importFile importPath)
  changeModel (·.loadAll drafts)
  return .names (drafts.map (·.name))

/-- Loads a blueprint that is given by its record. -/
def add (data : Json) : Action Answer := do
  load (← ofExcept .draft (BlueprintDraft.ofValue data))
  return .nothing

def addHeld (name : String) : Action Answer := do
  let b ← blueprint (.held name)
  changeModel (·.add b)
  return .nothing

def remove (a : BlueprintAddress) : Action Answer := do
  let b ← blueprint a
  match (← model).remove? b.handle with
  | none => return .truth false
  | some m =>
    setModel m
    return .truth true

def resolve (id : String) : Action Answer := do
  let m ← model
  return .place ((m.resolve? id).bind fun b => m.loaded.findIdx? (·.handle = b.handle))

/-- The places of the blueprint and the graph that hold a node. -/
def ownerOf (m : Model) (node : Node) : Option (Nat × Nat) :=
  match m.placeOf? node.handle with
  | some (.node b g _) => some (b, g)
  | _ => none

def find (r : Reference) (name : String) : Action Answer := do
  let b ← blueprintAt r
  let node := b.findNode? name
  return .finding ⟨b.findVariableIdx? name, b.findGraphIdx? name, node,
    node.bind (ownerOf (← model)), b.typeOf? name⟩

def findPin (a : NodeAddress) (name : String) (directionName : Option String) :
    Action Answer := do
  let x ← node a
  let wanted ← direction directionName
  return .pin do
    let i ← x.findPinIdx? name wanted
    let p ← x.pins[i]?
    some ⟨i, p.isExec, x.isVariable⟩

def keep (name : String) (a : ObjectAddress) : Action Answer := do
  hold name (← object a).handle
  return .nothing

def held (name : String) : Action Answer := do
  let o ← heldObject name
  return .object ((← model).placeOf? o.handle) o

def exportContext (time : String) (r : Reference) : Action Answer := do
  return .context (Context.exportContext time (← blueprintAt r))

def exportFile (time : String) (r : Reference) (p : Path) : Action Answer := do
  let b ← blueprintAt r
  let (disk, result) := Context.exportFile time b p (← desk).disk
  changeDesk fun d => { d with disk := disk }
  match result with
  | .ok () => return .written (some ((Context.exportContext time b).write .spread))
  | .error e => if e.isRefusal then return .written none else throw (.disk e)

/-- Where a node is created: in a graph of a blueprint, or in a new graph outside the model. -/
inductive Site
  | graph (blueprint graph : Reference)
  | loose (name : String)
deriving DecidableEq, Repr

def target : Site → Action CreationTarget
  | .loose name => return .foreign name
  | .graph r g => do
    let b ← blueprintAt r
    return .loaded b (← graphAt b g)

def createNode (site : Site) (kindName : String) (params : Json) (name : Option String) :
    Action Answer := do
  let target ← target site
  let kind ← choose "NodeKind" NodeKind.ofName? kindName
  let (node, m) ← ofExcept .creation ((← model).create target kind params)
  setModel m
  if let some name := name then hold name node.handle
  return .label (some node.name)

def deleteNode (a : NodeAddress) : Action Answer := do
  let x ← node a
  match (← model).deleteNode? x.handle with
  | none => return .truth false
  | some m =>
    setModel m
    return .truth true

def link (a b : PinAddress) : Action Answer := do
  let p ← pin a
  let q ← pin b
  changeModel (·.link p q)
  return .nothing

def rename (r : Reference) (old new : String) : Action Answer := do
  let b ← blueprintAt r
  if !b.hasVariable old then throw (.missing (.member old))
  changeModel (·.rename b old new)
  return .nothing

def rewire (r : Reference) (old new : String) : Action Answer := do
  let b ← blueprintAt r
  changeModel (·.rewire b old new)
  return .count (b.references old)

def markModified (r : Reference) : Action Answer := do
  let b ← blueprintAt r
  changeModel (·.markModified b)
  return .nothing

/-- Changes a node with numbers of the supply, as many as its kind takes pins. -/
def rebuild (a : NodeAddress) (f : Nat → Node → Node) : Action Answer := do
  let x ← node a
  changeModel fun m => (m.modifyNode x.handle (f m.next)).draw (Blueprint.pinCost x)
  return .nothing

def allocate (a : NodeAddress) (valueType : String) : Action Answer :=
  rebuild a (Node.allocate valueType)

def reconstruct (a : NodeAddress) (valueType : String) (previous : Option String) :
    Action Answer :=
  rebuild a (Node.reconstruct valueType previous)

def changeNode (a : NodeAddress) (f : Node → Node) : Action Answer := do
  let x ← node a
  changeModel (·.modifyNode x.handle f)
  return .nothing

def setMemberName (a : NodeAddress) (name : Option String) : Action Answer :=
  changeNode a fun x => { x with memberName := name }

def setName (a : NodeAddress) (name : String) : Action Answer :=
  changeNode a fun x => { x with name := name }

end BlueprintPatch.Session.Action

import BlueprintPatch.Graph.History
import Mathlib.Logic.Function.Basic
import Mathlib.Logic.Relation

/-! The model as a heap of objects. An object has identity, and so has each list in its fields: two
fields may hold one list, and a list may be filled anew or be exchanged for another. A saved state
refers to the objects themselves and to their lists as they are; of texts and of empty lists it keeps
copies, which nobody else can get hold of. Restoring writes into the objects and lists. -/
namespace BlueprintPatch

abbrev Address := Nat

/-- The fields of a pin, the links in the form `α`. -/
structure PinCell (α : Type) where
  id : String
  name : String
  direction : PinDirection
  pinType : String
  defaultValue : String
  linkedTo : α

/-- The fields of a node, the pins in the form `α`. -/
structure NodeCell (α : Type) where
  name : String
  guid : String
  kind : NodeKind
  memberName : Option String
  posX : Binary64
  posY : Binary64
  pins : α

/-- The fields of a graph, the nodes in the form `α`. -/
structure GraphCell (α : Type) where
  name : String
  graphType : GraphType
  nodes : α

structure MemberCell where
  name : String
  varType : String
  defaultValue : String
  isArray : Bool

/-- The fields of a blueprint, the variables in the form `α` and the graphs in the form `β`. -/
structure BlueprintCell (α β : Type) where
  name : String
  path : String
  parentClass : Option String
  members : α
  graphs : β
  modified : Bool
  modificationCount : Int

section
variable {α β γ δ : Type}

def PinCell.map (f : α → β) (c : PinCell α) : PinCell β := { c with linkedTo := f c.linkedTo }

def NodeCell.map (f : α → β) (c : NodeCell α) : NodeCell β := { c with pins := f c.pins }

def GraphCell.map (f : α → β) (c : GraphCell α) : GraphCell β := { c with nodes := f c.nodes }

def BlueprintCell.map (f : α → γ) (g : β → δ) (c : BlueprintCell α β) : BlueprintCell γ δ :=
  { c with members := f c.members, graphs := g c.graphs }

end

/-- The fields of every object, and the contents of every list. Objects are told apart by their
handles whether they are loaded or not. -/
structure Heap where
  pin : Handle → PinCell Address
  node : Handle → NodeCell Address
  graph : Handle → GraphCell Address
  member : Handle → MemberCell
  blueprint : Handle → BlueprintCell Address Address
  /-- The lists of objects. -/
  list : Address → List Handle
  /-- The lists of text. -/
  texts : Address → List String
  /-- The lists that a program can get hold of. -/
  visible : Address → Prop
  /-- The loaded blueprints. -/
  registry : List Handle
  /-- The first address without a list. -/
  next : Address
  /-- The next number of the supply. -/
  supply : Nat

namespace Heap

def readPin (h : Heap) (p : Handle) : Pin :=
  let c := (h.pin p).map h.texts
  ⟨p, c.id, c.name, c.direction, c.pinType, c.defaultValue, c.linkedTo⟩

def readNode (h : Heap) (n : Handle) : Node :=
  let c := (h.node n).map fun a => (h.list a).map h.readPin
  ⟨n, c.name, c.guid, c.kind, c.memberName, c.posX, c.posY, c.pins⟩

def readGraph (h : Heap) (g : Handle) : Graph :=
  let c := (h.graph g).map fun a => (h.list a).map h.readNode
  ⟨g, c.name, c.graphType, c.nodes⟩

def readMember (h : Heap) (v : Handle) : Variable :=
  let c := h.member v
  ⟨v, c.name, c.varType, c.defaultValue, c.isArray⟩

def readBlueprint (h : Heap) (b : Handle) : Blueprint :=
  let c := (h.blueprint b).map (fun a => (h.list a).map h.readMember)
    (fun a => (h.list a).map h.readGraph)
  ⟨b, c.name, c.path, c.parentClass, c.members, c.graphs, c.modified, c.modificationCount⟩

/-- The loaded blueprints with all that is in them, every object with its handle. -/
def loaded (h : Heap) : List Blueprint := h.registry.map h.readBlueprint

def setPin (p : Handle) (c : PinCell Address) (h : Heap) : Heap :=
  { h with pin := Function.update h.pin p c }

def setNode (n : Handle) (c : NodeCell Address) (h : Heap) : Heap :=
  { h with node := Function.update h.node n c }

def setGraph (g : Handle) (c : GraphCell Address) (h : Heap) : Heap :=
  { h with graph := Function.update h.graph g c }

def setMember (v : Handle) (c : MemberCell) (h : Heap) : Heap :=
  { h with member := Function.update h.member v c }

def setBlueprint (b : Handle) (c : BlueprintCell Address Address) (h : Heap) : Heap :=
  { h with blueprint := Function.update h.blueprint b c }

/-- Changes a list of objects in place. -/
def fill (a : Address) (items : List Handle) (h : Heap) : Heap :=
  { h with list := Function.update h.list a items }

/-- Changes a list of text in place. -/
def fillTexts (a : Address) (items : List String) (h : Heap) : Heap :=
  { h with texts := Function.update h.texts a items }

/-- Makes a list of objects that no program can get hold of. -/
def hideList (items : List Handle) (h : Heap) : Address × Heap :=
  (h.next, { h with list := Function.update h.list h.next items, next := h.next + 1 })

/-- Makes a list of text that no program can get hold of. -/
def hideTexts (items : List String) (h : Heap) : Address × Heap :=
  (h.next, { h with texts := Function.update h.texts h.next items, next := h.next + 1 })

def expose (a : Address) (h : Heap) : Heap := { h with visible := fun b => b = a ∨ h.visible b }

def newList (items : List Handle) (h : Heap) : Address × Heap :=
  let r := h.hideList items
  (r.1, r.2.expose r.1)

def newTexts (items : List String) (h : Heap) : Address × Heap :=
  let r := h.hideTexts items
  (r.1, r.2.expose r.1)

def setRegistry (bs : List Handle) (h : Heap) : Heap := { h with registry := bs }

def setSupply (n : Nat) (h : Heap) : Heap := { h with supply := n }

/-- One write of a program. It can put into a field whatever list it can get hold of. -/
inductive Write : Heap → Heap → Prop
  | pin {h : Heap} (p : Handle) (c : PinCell Address) :
      h.visible c.linkedTo → Write h (h.setPin p c)
  | node {h : Heap} (n : Handle) (c : NodeCell Address) : h.visible c.pins → Write h (h.setNode n c)
  | graph {h : Heap} (g : Handle) (c : GraphCell Address) :
      h.visible c.nodes → Write h (h.setGraph g c)
  | member {h : Heap} (v : Handle) (c : MemberCell) : Write h (h.setMember v c)
  | blueprint {h : Heap} (b : Handle) (c : BlueprintCell Address Address) :
      h.visible c.members → h.visible c.graphs → Write h (h.setBlueprint b c)
  | fill {h : Heap} (a : Address) (items : List Handle) : h.visible a → Write h (h.fill a items)
  | fillTexts {h : Heap} (a : Address) (items : List String) :
      h.visible a → Write h (h.fillTexts a items)
  | newList {h : Heap} (items : List Handle) : Write h (h.newList items).2
  | newTexts {h : Heap} (items : List String) : Write h (h.newTexts items).2
  | registry {h : Heap} (bs : List Handle) : Write h (h.setRegistry bs)
  | supply {h : Heap} (n : Nat) : Write h (h.setSupply n)

/-- Writes a pin, with a new list of links. -/
def putPin (p : Pin) (h : Heap) : Heap :=
  let r := h.newTexts p.linkedTo
  r.2.setPin p.handle ⟨p.id, p.name, p.direction, p.pinType, p.defaultValue, r.1⟩

/-- Writes a node and its pins, with a new list of pins. -/
def putNode (x : Node) (h : Heap) : Heap :=
  let r := (x.pins.foldl (fun h p => h.putPin p) h).newList (x.pins.map (·.handle))
  r.2.setNode x.handle ⟨x.name, x.guid, x.kind, x.memberName, x.posX, x.posY, r.1⟩

def renameVariable (v : Handle) (new : String) (h : Heap) : Heap :=
  h.setMember v { h.member v with name := new }

def markModified (b : Handle) (h : Heap) : Heap :=
  let c := h.blueprint b
  h.setBlueprint b { c with modified := true, modificationCount := c.modificationCount + 1 }

def addBlueprint (b : Handle) (h : Heap) : Heap := h.setRegistry (h.registry ++ [b])

/-- Unloads the blueprint at its first place. -/
def removeBlueprint (b : Handle) (h : Heap) : Heap := h.setRegistry (h.registry.erase b)

/-- Adds a link to the list of links that the pin holds, unless it is there. -/
def addLink (p : Handle) (id : String) (h : Heap) : Heap :=
  let a := (h.pin p).linkedTo
  if id ∈ h.texts a then h else h.fillTexts a (h.texts a ++ [id])

def linkPins (p q : Handle) (h : Heap) : Heap :=
  (h.addLink p (h.pin q).id).addLink q (h.pin p).id

/-- A new node at the end of the list of nodes that the graph holds; nothing for a graph of no loaded
blueprint. -/
def createNode (g : Handle) (kind : NodeKind) (memberName : Option String) (posX posY : Binary64)
    (h : Heap) : Heap :=
  match h.registry.find? fun b => g ∈ h.list (h.blueprint b).graphs with
  | none => h
  | some b =>
    let node := (h.readBlueprint b).newNode kind memberName posX posY h.supply
    let a := (h.graph g).nodes
    ((h.fill a (h.list a ++ [node.handle])).putNode node).setSupply
      (h.supply + 1 + node.pins.length)

/-- Takes the links to some ids from a pin that has links; it gets a new list of them. -/
def unlinkPin (ids : List String) (p : Handle) (h : Heap) : Heap :=
  let links := h.texts (h.pin p).linkedTo
  if links.isEmpty then h
  else
    let r := h.newTexts (links.filter (· ∉ ids))
    r.2.setPin p { r.2.pin p with linkedTo := r.1 }

/-- The first loaded blueprint with a graph that holds the node, and the graph. -/
def ownerOf (n : Handle) (h : Heap) : Option (Handle × Handle) :=
  h.registry.findSome? fun b =>
    ((h.list (h.blueprint b).graphs).find? fun g => n ∈ h.list (h.graph g).nodes).map (b, ·)

def nodesOf (b : Handle) (h : Heap) : List Handle :=
  (h.list (h.blueprint b).graphs).flatMap fun g => h.list (h.graph g).nodes

/-- The graph gets a new list of nodes, without the node. -/
def dropNode (g n : Handle) (h : Heap) : Heap :=
  let r := h.newList ((h.list (h.graph g).nodes).filter (· ≠ n))
  r.2.setGraph g { r.2.graph g with nodes := r.1 }

/-- The links to some ids go from all pins of the blueprint. -/
def unlinkAll (b : Handle) (ids : List String) (h : Heap) : Heap :=
  ((h.nodesOf b).flatMap fun n => h.list (h.node n).pins).foldl (fun h p => h.unlinkPin ids p) h

def deleteNode (n : Handle) (h : Heap) : Heap :=
  match h.ownerOf n with
  | none => h
  | some (b, g) => (h.dropNode g n).unlinkAll b ((h.readNode n).pins.map (·.id))

/-- Makes a node that refers to `old` refer to `new`; it gets new pins in a new list. -/
def rewireNode (valueType old new : String) (n : Handle) (h : Heap) : Heap :=
  let x := h.readNode n
  if Blueprint.refersTo old x then
    (h.putNode (Blueprint.rewireNode valueType old new h.supply x)).setSupply
      (h.supply + Blueprint.pinCost x)
  else h

def rewire (b : Handle) (old new : String) (h : Heap) : Heap :=
  (h.nodesOf b).foldl
    (fun h' n => h'.rewireNode ((h.readBlueprint b).valueType new) old new n) h

/-- What may happen to a model: the changes that it offers and any write by hand. -/
inductive Mutation (h : Heap) : Heap → Prop
  | createNode (g : Handle) (kind : NodeKind) (memberName : Option String) (posX posY : Binary64) :
      Mutation h (h.createNode g kind memberName posX posY)
  | deleteNode (n : Handle) : Mutation h (h.deleteNode n)
  | renameVariable (v : Handle) (new : String) : Mutation h (h.renameVariable v new)
  | rewire (b : Handle) (old new : String) : Mutation h (h.rewire b old new)
  | linkPins (p q : Handle) : Mutation h (h.linkPins p q)
  | markModified (b : Handle) : Mutation h (h.markModified b)
  | addBlueprint (b : Handle) : Mutation h (h.addBlueprint b)
  | removeBlueprint (b : Handle) : Mutation h (h.removeBlueprint b)
  | byHand {h' : Heap} : Write h h' → Mutation h h'

end Heap

/-- An object with the fields that it had. -/
structure Saved (γ : Type) where
  handle : Handle
  cell : γ

/-- A list field as it was: a copy of an empty list, or the list itself with what each of its items
was. -/
inductive SavedList (α : Type)
  | copy (a : Address)
  | original (a : Address) (items : List α)

abbrev SavedPin := Saved (PinCell Address)

abbrev SavedNode := Saved (NodeCell (SavedList SavedPin))

abbrev SavedGraph := Saved (GraphCell (SavedList SavedNode))

abbrev SavedMember := Saved MemberCell

abbrev SavedBlueprint := Saved (BlueprintCell (SavedList SavedMember) (SavedList SavedGraph))

abbrev SavedModel := List SavedBlueprint

namespace Heap
variable {α β : Type}

/-- Works on one element after the other in the heap that is left by the one before. -/
def each (f : α → Heap → β × Heap) : List α → Heap → List β × Heap
  | [], h => ([], h)
  | a :: as, h =>
    let r := f a h
    let rs := each f as r.2
    (r.1 :: rs.1, rs.2)

def savePin (p : Handle) (h : Heap) : SavedPin × Heap :=
  let r := h.hideTexts (h.texts (h.pin p).linkedTo)
  (⟨p, (h.pin p).map fun _ => r.1⟩, r.2)

def saveList (save : Handle → Heap → α × Heap) (a : Address) (h : Heap) : SavedList α × Heap :=
  if h.list a = [] then
    let r := h.hideList []
    (.copy r.1, r.2)
  else
    let r := each save (h.list a) h
    (.original a r.1, r.2)

def saveNode (n : Handle) (h : Heap) : SavedNode × Heap :=
  let r := saveList savePin (h.node n).pins h
  (⟨n, (h.node n).map fun _ => r.1⟩, r.2)

def saveGraph (g : Handle) (h : Heap) : SavedGraph × Heap :=
  let r := saveList saveNode (h.graph g).nodes h
  (⟨g, (h.graph g).map fun _ => r.1⟩, r.2)

def saveMember (v : Handle) (h : Heap) : SavedMember × Heap := (⟨v, h.member v⟩, h)

def saveBlueprint (b : Handle) (h : Heap) : SavedBlueprint × Heap :=
  let r := saveList saveMember (h.blueprint b).members h
  let s := saveList saveGraph (h.blueprint b).graphs r.2
  (⟨b, (h.blueprint b).map (fun _ => r.1) (fun _ => s.1)⟩, s.2)

def snapshot (h : Heap) : SavedModel × Heap := each saveBlueprint h.registry h

/-- Writes the pin's fields as they were, with a new copy of its links. -/
def restorePin (s : SavedPin) (h : Heap) : Handle × Heap :=
  let r := h.newTexts (h.texts s.cell.linkedTo)
  (s.handle, r.2.setPin s.handle (s.cell.map fun _ => r.1))

/-- The list that goes into the field: a new copy of an empty one, or the list itself, filled with
its items once they are restored. -/
def restoreList (restore : α → Heap → Handle × Heap) (s : SavedList α) (h : Heap) :
    Address × Heap :=
  match s with
  | .copy a => h.newList (h.list a)
  | .original a items =>
    let r := each restore items h
    (a, r.2.fill a r.1)

def restoreNode (s : SavedNode) (h : Heap) : Handle × Heap :=
  let r := restoreList restorePin s.cell.pins h
  (s.handle, r.2.setNode s.handle (s.cell.map fun _ => r.1))

def restoreGraph (s : SavedGraph) (h : Heap) : Handle × Heap :=
  let r := restoreList restoreNode s.cell.nodes h
  (s.handle, r.2.setGraph s.handle (s.cell.map fun _ => r.1))

def restoreMember (s : SavedMember) (h : Heap) : Handle × Heap :=
  (s.handle, h.setMember s.handle s.cell)

def restoreBlueprint (s : SavedBlueprint) (h : Heap) : Handle × Heap :=
  let r := restoreList restoreMember s.cell.members h
  let t := restoreList restoreGraph s.cell.graphs r.2
  (s.handle, t.2.setBlueprint s.handle (s.cell.map (fun _ => r.1) (fun _ => t.1)))

def restore (saved : SavedModel) (h : Heap) : Heap :=
  let r := each restoreBlueprint saved h
  r.2.setRegistry r.1

def readSavedPin (h : Heap) (s : SavedPin) : Pin :=
  let c := s.cell.map h.texts
  ⟨s.handle, c.id, c.name, c.direction, c.pinType, c.defaultValue, c.linkedTo⟩

/-- The items of a saved list; `live` reads an object and `saved` what it was. -/
def readSavedList (h : Heap) (live : Handle → β) (saved : α → β) : SavedList α → List β
  | .copy a => (h.list a).map live
  | .original _ items => items.map saved

def readSavedNode (h : Heap) (s : SavedNode) : Node :=
  let c := s.cell.map (h.readSavedList h.readPin h.readSavedPin)
  ⟨s.handle, c.name, c.guid, c.kind, c.memberName, c.posX, c.posY, c.pins⟩

def readSavedGraph (h : Heap) (s : SavedGraph) : Graph :=
  let c := s.cell.map (h.readSavedList h.readNode h.readSavedNode)
  ⟨s.handle, c.name, c.graphType, c.nodes⟩

def readSavedMember (s : SavedMember) : Variable :=
  ⟨s.handle, s.cell.name, s.cell.varType, s.cell.defaultValue, s.cell.isArray⟩

def readSavedBlueprint (h : Heap) (s : SavedBlueprint) : Blueprint :=
  let c := s.cell.map (h.readSavedList h.readMember readSavedMember)
    (h.readSavedList h.readGraph h.readSavedGraph)
  ⟨s.handle, c.name, c.path, c.parentClass, c.members, c.graphs, c.modified, c.modificationCount⟩

/-- The blueprints that a saved state holds. -/
def readSaved (h : Heap) (saved : SavedModel) : List Blueprint := saved.map h.readSavedBlueprint

end Heap

end BlueprintPatch

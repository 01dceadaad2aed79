import BlueprintPatch.Graph.Blueprint
import BlueprintPatch.Record.Field

/-! Drafts: the content of blueprints before they are objects. A draft may leave ids open; making
the object draws them, and the handles of everything in it, from the supply. -/
namespace BlueprintPatch

/-- The records whose fields are checked, by the names that reports use for them. -/
inductive RecordKind
  | pin
  | node
  | graph
  | variable
  | blueprint
  | settings
  | variableRename
  | nodeAdd
  | nodeDelete
  | nodeModify
  | connection
  | operation
deriving DecidableEq, Repr

def RecordKind.name : RecordKind → String
  | .pin => "Pin"
  | .node => "GraphNode"
  | .graph => "Graph"
  | .variable => "BlueprintVariable"
  | .blueprint => "Blueprint"
  | .settings => "PilotSettings"
  | .variableRename => "VariableRenameOp"
  | .nodeAdd => "NodeAddOp"
  | .nodeDelete => "NodeDeleteOp"
  | .nodeModify => "NodeModifyOp"
  | .connection => "ConnectionOp"
  | .operation => "PatchOperation"

/-- The fields that were wrong when a record was to be made. -/
structure Rejection where
  record : RecordKind
  errors : List FieldError
deriving DecidableEq, Repr

def Rejection.message (r : Rejection) : String := "<ValidationError " ++ r.record.name ++ ">"

/-- The outcome of a check, as a report about the record. -/
def Checked.about {α : Type} (record : RecordKind) : Checked α → Except Rejection α
  | .ok a => .ok a
  | .errors es => .error ⟨record, es⟩

structure PinDraft where
  id : Option String
  name : String
  direction : PinDirection
  pinType : String
  defaultValue : String
  linkedTo : List String
deriving DecidableEq, Repr

structure NodeDraft where
  name : String
  guid : Option String
  kind : NodeKind
  memberName : Option String
  posX : Binary64
  posY : Binary64
  pins : List PinDraft
deriving DecidableEq, Repr

structure GraphDraft where
  name : String
  graphType : GraphType
  nodes : List NodeDraft
deriving DecidableEq, Repr

structure VariableDraft where
  name : String
  varType : String
  defaultValue : String
  isArray : Bool
deriving DecidableEq, Repr

structure BlueprintDraft where
  name : String
  path : String
  parentClass : Option String
  members : List VariableDraft
  graphs : List GraphDraft
  modified : Bool
  modificationCount : Int
deriving DecidableEq, Repr

namespace PinDraft

def check (fields : Fields) : Checked PinDraft :=
  PinDraft.mk <$> fields.take "id" none (fun v => some <$> Rule.text v)
    <*> fields.need "name" Rule.text
    <*> fields.need "direction" (Rule.choice PinDirection.ofName?)
    <*> fields.take "pin_type" wildcardType Rule.text
    <*> fields.take "default_value" "" Rule.text
    <*> fields.take "linked_to" [] (Rule.list Rule.text)

end PinDraft

namespace NodeDraft

/-- A node from its own fields and from pins that are checked already. -/
def checkAround (pins : Checked (List PinDraft)) (fields : Fields) : Checked NodeDraft :=
  NodeDraft.mk <$> fields.need "name" Rule.text
    <*> fields.take "guid" none (fun v => some <$> Rule.text v)
    <*> fields.take "kind" .generic (Rule.choice NodeKind.ofName?)
    <*> fields.take "member_name" none (Rule.optional Rule.text)
    <*> fields.take "pos_x" Binary64.zero Rule.number
    <*> fields.take "pos_y" Binary64.zero Rule.number
    <*> pins

def check (fields : Fields) : Checked NodeDraft :=
  checkAround (fields.take "pins" [] (Rule.list (Rule.record PinDraft.check))) fields

end NodeDraft

namespace GraphDraft

def checkAround (nodes : Checked (List NodeDraft)) (fields : Fields) : Checked GraphDraft :=
  GraphDraft.mk <$> fields.need "name" Rule.text
    <*> fields.take "graph_type" .eventGraph (Rule.choice GraphType.ofName?)
    <*> nodes

def check (fields : Fields) : Checked GraphDraft :=
  checkAround (fields.take "nodes" [] (Rule.list (Rule.record NodeDraft.check))) fields

end GraphDraft

namespace VariableDraft

def check (fields : Fields) : Checked VariableDraft :=
  VariableDraft.mk <$> fields.need "name" Rule.text
    <*> fields.take "var_type" "bool" Rule.text
    <*> fields.take "default_value" "" Rule.text
    <*> fields.take "is_array" false Rule.flag

end VariableDraft

namespace BlueprintDraft

def checkAround (members : Checked (List VariableDraft)) (graphs : Checked (List GraphDraft))
    (fields : Fields) : Checked BlueprintDraft :=
  BlueprintDraft.mk <$> fields.need "name" Rule.text
    <*> fields.take "path" "" Rule.text
    <*> fields.take "parent_class" none (Rule.optional Rule.text)
    <*> members
    <*> graphs
    <*> fields.take "modified" false Rule.flag
    <*> fields.take "modification_count" 0 Rule.integer

def check (fields : Fields) : Checked BlueprintDraft :=
  checkAround (fields.take "variables" [] (Rule.list (Rule.record VariableDraft.check)))
    (fields.take "graphs" [] (Rule.list (Rule.record GraphDraft.check))) fields

end BlueprintDraft

/-- Why a value does not describe a blueprint. -/
inductive DraftError
  | notObject (type : String)
  | rejected (r : Rejection)
deriving DecidableEq, Repr

def DraftError.message : DraftError → String
  | .notObject type =>
    "core.graph.models.Blueprint() argument after ** must be a mapping, not " ++ type
  | .rejected r => r.message

/-- The blueprint whose record the value is. -/
def BlueprintDraft.ofValue : Json → Except DraftError BlueprintDraft
  | .obj fields =>
    match (check fields).about .blueprint with
    | .ok b => .ok b
    | .error r => .error (.rejected r)
  | v => .error (.notObject v.typeName)

/-- Something made from numbers of the supply, with the next number that is free. -/
abbrev Drawn (α : Type) := Nat → α × Nat

/-- Every element made in turn. -/
def drawAll {α β : Type} (make : α → Drawn β) : List α → Drawn (List β)
  | [], n => ([], n)
  | a :: rest, n =>
    let (b, n) := make a n
    let (bs, n) := drawAll make rest n
    (b :: bs, n)

def PinDraft.make (d : PinDraft) : Drawn Pin := fun n =>
  (⟨n, d.id.getD (generatedId n), d.name, d.direction, d.pinType, d.defaultValue, d.linkedTo⟩,
    n + 1)

def NodeDraft.make (d : NodeDraft) : Drawn Node := fun n =>
  let (pins, next) := drawAll PinDraft.make d.pins (n + 1)
  (⟨n, d.name, d.guid.getD (generatedId n), d.kind, d.memberName, d.posX, d.posY, pins⟩, next)

def GraphDraft.make (d : GraphDraft) : Drawn Graph := fun n =>
  let (nodes, next) := drawAll NodeDraft.make d.nodes (n + 1)
  (⟨n, d.name, d.graphType, nodes⟩, next)

def VariableDraft.make (d : VariableDraft) : Drawn Variable := fun n =>
  (⟨n, d.name, d.varType, d.defaultValue, d.isArray⟩, n + 1)

def BlueprintDraft.make (d : BlueprintDraft) : Drawn Blueprint := fun n =>
  let (members, next) := drawAll VariableDraft.make d.members (n + 1)
  let (graphs, next) := drawAll GraphDraft.make d.graphs next
  (⟨n, d.name, d.path, d.parentClass, members, graphs, d.modified, d.modificationCount⟩, next)

def Pin.draft (p : Pin) : PinDraft :=
  ⟨some p.id, p.name, p.direction, p.pinType, p.defaultValue, p.linkedTo⟩

def Node.draft (node : Node) : NodeDraft :=
  ⟨node.name, some node.guid, node.kind, node.memberName, node.posX, node.posY,
    node.pins.map Pin.draft⟩

def Graph.draft (g : Graph) : GraphDraft := ⟨g.name, g.graphType, g.nodes.map Node.draft⟩

def Variable.draft (v : Variable) : VariableDraft :=
  ⟨v.name, v.varType, v.defaultValue, v.isArray⟩

/-- All that a blueprint holds, whichever objects hold it. -/
def Blueprint.draft (b : Blueprint) : BlueprintDraft :=
  ⟨b.name, b.path, b.parentClass, b.members.map Variable.draft, b.graphs.map Graph.draft,
    b.modified, b.modificationCount⟩

end BlueprintPatch

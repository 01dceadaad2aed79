import BlueprintPatch.Graph.Draft
import BlueprintPatch.Patch.Document

/-! Operations as typed records, made from raw ones by a check of their fields. -/
namespace BlueprintPatch

/-- What every operation has; fields that its kind does not declare are kept aside. -/
structure Header where
  type : String
  blueprint : String
  description : Option String
  extra : Fields
deriving Repr

structure Position where
  x : Binary64
  y : Binary64
deriving DecidableEq, Repr

def Position.origin : Position := ⟨Binary64.zero, Binary64.zero⟩

structure VariableRename where
  header : Header
  oldName : String
  newName : String
deriving Repr

structure NodeAdd where
  header : Header
  nodeType : String
  graph : String
  variableName : Option String
  functionName : Option String
  position : Position
deriving Repr

structure NodeDelete where
  header : Header
  nodeId : String
deriving Repr

inductive Operation
  | variableRename (op : VariableRename)
  | nodeAdd (op : NodeAdd)
  | nodeDelete (op : NodeDelete)
  /-- A kind of operation that has no implementation. -/
  | unsupported (kind : OperationKind) (header : Header)
deriving Repr

def OperationKind.record : OperationKind → RecordKind
  | .variableRename => .variableRename
  | .nodeAdd => .nodeAdd
  | .nodeModify => .nodeModify
  | .nodeDelete => .nodeDelete
  | .connectionAdd => .connection
  | .connectionRemove => .connection

/-- The kind of node that a patch may add, and the field that names its member. -/
def supportedNodeTypes : List (String × NodeKind × String) :=
  [("VariableGet", .variableGet, "variable_name"), ("VariableSet", .variableSet, "variable_name"),
   ("FunctionCall", .functionCall, "function_name")]

namespace NodeAdd

def kind? (op : NodeAdd) : Option NodeKind :=
  (supportedNodeTypes.lookup op.nodeType).map (·.1)

def memberField? (op : NodeAdd) : Option String :=
  (supportedNodeTypes.lookup op.nodeType).map (·.2)

/-- The variable or function that the new node refers to. -/
def memberName? (op : NodeAdd) : Option String :=
  op.kind?.bind fun kind => if kind = .functionCall then op.functionName else op.variableName

end NodeAdd

def headerFields : List String := ["type", "blueprint", "description"]

def checkHeader (declared : List String) (fields : Fields) : Checked Header :=
  (fun type blueprint description =>
      ⟨type, blueprint, description, fields.filter (·.1 ∉ headerFields ++ declared)⟩)
    <$> fields.need "type" Rule.nonemptyText
    <*> fields.need "blueprint" Rule.nonemptyText
    <*> fields.take "description" none (Rule.optional Rule.text)

def VariableRename.check (fields : Fields) : Checked VariableRename :=
  VariableRename.mk <$> checkHeader ["old_name", "new_name"] fields
    <*> fields.need "old_name" Rule.nonemptyText
    <*> fields.need "new_name" Rule.nonemptyText

def defaultGraph : String := "EventGraph"

/-- Null and the empty text stand for the default graph. -/
def graphRule : Rule String
  | .null => .ok defaultGraph
  | .str s => .ok (if s = "" then defaultGraph else s)
  | v => Rule.text v

def isNumber : Json → Bool
  | .int _ => true
  | .float _ => true
  | _ => false

/-- A position counts only if both coordinates are numbers; anything else stands for the origin.
An integer may be too large for a coordinate. -/
def positionRule : Rule Position
  | .obj fields =>
    match Fields.get? "x" fields, Fields.get? "y" fields with
    | some x, some y =>
      if isNumber x && isNumber y then
        Position.mk <$> (Rule.number x).within "x" <*> (Rule.number y).within "y"
      else .ok .origin
    | _, _ => .ok .origin
  | _ => .ok .origin

def NodeAdd.check (fields : Fields) : Checked NodeAdd :=
  NodeAdd.mk
    <$> checkHeader ["node_type", "graph", "variable_name", "function_name", "position"] fields
    <*> fields.need "node_type" Rule.nonemptyText
    <*> fields.take "graph" defaultGraph graphRule
    <*> fields.take "variable_name" none (Rule.optional Rule.text)
    <*> fields.take "function_name" none (Rule.optional Rule.text)
    <*> fields.take "position" .origin positionRule

def NodeDelete.check (fields : Fields) : Checked NodeDelete :=
  NodeDelete.mk <$> checkHeader ["node_id"] fields <*> fields.need "node_id" Rule.nonemptyText

namespace Operation

def check (kind : OperationKind) (fields : Fields) : Checked Operation :=
  match kind with
  | .variableRename => variableRename <$> VariableRename.check fields
  | .nodeAdd => nodeAdd <$> NodeAdd.check fields
  | .nodeDelete => nodeDelete <$> NodeDelete.check fields
  | kind => unsupported kind <$> checkHeader [] fields

def header : Operation → Header
  | variableRename op => op.header
  | nodeAdd op => op.header
  | nodeDelete op => op.header
  | unsupported _ header => header

def kind : Operation → OperationKind
  | variableRename _ => .variableRename
  | nodeAdd _ => .nodeAdd
  | nodeDelete _ => .nodeDelete
  | unsupported kind _ => kind

end Operation

/-- Why a raw operation has no typed record. -/
inductive BuildError
  | unknownType (type : Option String)
  | rejected (r : Rejection)
deriving DecidableEq, Repr

def RawOperation.build (op : RawOperation) : Except BuildError Operation :=
  match op.kind? with
  | none => .error (.unknownType op.type?)
  | some kind =>
    match (Operation.check kind op.fields).about kind.record with
    | .ok typed => .ok typed
    | .error r => .error (.rejected r)

/-- The first field that was wrong. -/
def Rejection.firstField (r : Rejection) : String :=
  (r.errors.findSome? (·.path.head?)).getD "?"

/-- The raw operation that the value is, at that place in its list. -/
def RawOperation.ofValue (index : Nat) : Json → Except Rejection RawOperation
  | .obj fields => .ok ⟨index, fields⟩
  | _ => .error ⟨.operation, [⟨["fields"], .objectType⟩]⟩

/-- The typed record of an operation that stands alone. -/
def Operation.ofValue (v : Json) : Except BuildError Operation :=
  match RawOperation.ofValue 0 v with
  | .ok op => op.build
  | .error r => .error (.rejected r)

def BuildError.message : BuildError → String
  | .unknownType type => "Unknown operation type: " ++ type.getD "None"
  | .rejected r => r.message

end BlueprintPatch

import BlueprintPatch.Graph.Model
import BlueprintPatch.Patch.Operation

/-! Validation: what has to hold of an operation and of the model before it is carried out. The
model is only looked at. -/
namespace BlueprintPatch

def VariableRename.validate (b : Blueprint) (op : VariableRename) : Except Refusal Unit :=
  if ¬ b.hasVariable op.oldName then .error (.variableNotFound op.oldName)
  else if b.hasVariable op.newName then .error (.variableExists op.newName)
  else .ok ()

/-- The kind and the member of a node that can be added. -/
def NodeAdd.target (op : NodeAdd) (unsupported : String → Refusal) :
    Except Refusal (NodeKind × String) :=
  match op.kind?, op.memberField? with
  | some kind, some field =>
    match op.memberName? with
    | none => .error (.memberMissing op.nodeType field)
    | some name => if name = "" then .error (.memberMissing op.nodeType field) else .ok (kind, name)
  | _, _ => .error (unsupported op.nodeType)

def NodeAdd.validate (b : Blueprint) (op : NodeAdd) : Except Refusal Unit := do
  let _ ← op.target .nodeTypeUnsupported
  if b.hasGraph op.graph then .ok () else .error (.graphNotFound op.graph)

def NodeDelete.validate (b : Blueprint) (op : NodeDelete) : Except Refusal Unit :=
  if (b.findNode? op.nodeId).isSome then .ok () else .error (.nodeNotFound op.nodeId)

def Operation.validate (b : Blueprint) : Operation → Except Refusal Unit
  | .variableRename op => op.validate b
  | .nodeAdd op => op.validate b
  | .nodeDelete op => op.validate b
  | .unsupported kind _ => .error (.notImplemented kind)

namespace RawOperation

/-- The blueprint that the operation names. Text that holds half of a surrogate pair names none. -/
def target? (m : Model) (op : RawOperation) : Option Blueprint :=
  ((op.fields.get? "blueprint").bind Json.text?).bind m.resolve?

/-- The typed record of an operation that can be carried out in the model. -/
def validate (m : Model) (op : RawOperation) : Except Refusal Operation :=
  match op.type?, op.blueprint? with
  | none, _ => .error .typeMissing
  | some _, none => .error .blueprintMissing
  | some type, some id =>
    match op.kind? with
    | none => .error (.unknownType type)
    | some kind =>
      if ¬ kind.isImplemented then .error (.notImplemented kind)
      else match op.target? m with
        | none => .error (.blueprintNotFound id)
        | some b =>
          match (Operation.check kind op.fields).about kind.record with
          | .error r => .error (.fieldInvalid kind r.firstField)
          | .ok typed => (typed.validate b).map fun _ => typed

end RawOperation

/-- The first refusal among the operations, all of them checked against the same model. -/
def validateAll (m : Model) : List RawOperation → Except Refusal Unit
  | [] => .ok ()
  | op :: rest =>
    match op.validate m with
    | .error r => .error r
    | .ok _ => validateAll m rest

end BlueprintPatch

import BlueprintPatch.Patch.Validation

/-! Application: how an operation changes the model. Each one looks its target up again and
answers with a summary; one that is refused changes nothing. -/
namespace BlueprintPatch

def Model.resolve (id : String) (m : Model) : Except Refusal Blueprint :=
  match m.resolve? id with
  | some b => .ok b
  | none => .error (.blueprintNotFound id)

/-- Renames the variable, then every reference to it. -/
def VariableRename.apply (op : VariableRename) (m : Model) : Except Refusal (Model × String) := do
  let b ← m.resolve op.header.blueprint
  op.validate b
  let renamed := b.renameVariable op.oldName op.newName
  let changed := (renamed.rewire op.oldName op.newName m.next).markModified
  .ok ((m.update changed).draw (b.rewiringCost op.oldName),
    "Renamed " ++ op.oldName ++ " -> " ++ op.newName)

/-- Adds a node at the end of the graph. -/
def NodeAdd.apply (op : NodeAdd) (m : Model) : Except Refusal (Model × String) := do
  let b ← m.resolve op.header.blueprint
  if ¬ b.hasGraph op.graph then .error (.graphNotFound op.graph)
  let (kind, member) ← op.target .nodeTypeNotCreated
  let node := b.newNode kind (some member) op.position.x op.position.y m.next
  let changed := (b.addNode (·.name = op.graph) node).markModified
  .ok ((m.update changed).draw (1 + node.pins.length), "Added " ++ node.name)

/-- Removes the node and the links to it. -/
def NodeDelete.apply (op : NodeDelete) (m : Model) : Except Refusal (Model × String) := do
  let b ← m.resolve op.header.blueprint
  match b.removeNode? (·.answersTo op.nodeId) with
  | none => .error (.nodeNotFound op.nodeId)
  | some changed => .ok (m.update changed.markModified, "Deleted " ++ op.nodeId)

def Operation.apply (m : Model) : Operation → Except Refusal (Model × String)
  | .variableRename op => op.apply m
  | .nodeAdd op => op.apply m
  | .nodeDelete op => op.apply m
  | .unsupported kind _ => .error (.notImplemented kind)

end BlueprintPatch

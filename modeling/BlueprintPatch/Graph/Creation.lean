import BlueprintPatch.Context.Coercion
import BlueprintPatch.Graph.Model

/-! Creation of nodes from parameters that are not checked yet. -/
namespace BlueprintPatch

/-- Where a node is to be created: in a graph of a loaded blueprint, or in a graph of none. -/
inductive CreationTarget
  | loaded (b : Blueprint) (g : Graph)
  | foreign (name : String)

inductive CreationError
  | foreignGraph (name : String)
  /-- The parameters are not given by name. -/
  | notObject (type : String)
  | coercion (e : CoercionError)
  | rejected (r : Rejection)
deriving DecidableEq, Repr

def CreationError.message : CreationError → String
  | .foreignGraph name => "Graph '" ++ name ++ "' does not belong to a loaded blueprint"
  | .notObject type => "'" ++ type ++ "' object has no attribute 'get'"
  | .coercion e => e.message
  | .rejected r => r.message

namespace Creation

/-- The parameters by name; what does not count as true stands for none. -/
def parameters : Json → Except CreationError Fields
  | .obj fields => .ok fields
  | v => if v.isTruthy then .error (.notObject v.typeName) else .ok []

/-- A coordinate among the parameters; an absent one is zero. -/
def coordinate (name : String) (params : Fields) : Except CreationError Binary64 :=
  ((params.get? name).getD (.float .zero)).toNumber.mapError .coercion

def memberName (params : Fields) : Except CreationError (Option String) :=
  match (params.take "member_name" none (Rule.optional Rule.text)).about .node with
  | .ok name => .ok name
  | .error r => .error (.rejected r)

end Creation

/-- Creates a node of the kind. The graph is looked at first, then the coordinates, then the
member. -/
def Model.create (target : CreationTarget) (kind : NodeKind) (params : Json) (m : Model) :
    Except CreationError (Node × Model) :=
  match target with
  | .foreign name => .error (.foreignGraph name)
  | .loaded b g => do
    let params ← Creation.parameters params
    let posX ← Creation.coordinate "pos_x" params
    let posY ← Creation.coordinate "pos_y" params
    let memberName ← Creation.memberName params
    .ok (m.createNode b (fun h => h.handle = g.handle) kind memberName posX posY)

end BlueprintPatch

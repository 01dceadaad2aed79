import BlueprintPatch.Context.Coercion
import BlueprintPatch.Disk.JsonFile
import BlueprintPatch.Graph.Model

/-! Import of blueprint contexts, the objects by which the editor describes blueprints. Elements
of a list that are no objects are left out; what a field lacks is filled in. -/
namespace BlueprintPatch

inductive ImportError
  | noName
  | coercion (e : CoercionError)
  | rejected (r : Rejection)
deriving DecidableEq, Repr

def ImportError.message : ImportError → String
  | .noName => "Blueprint context must be an object with a 'name'"
  | .coercion e => e.message
  | .rejected r => r.message

namespace Context

abbrev Import (α : Type) := Except ImportError α

def coerce {α : Type} (r : Except CoercionError α) : Import α := r.mapError .coercion

def checked {α : Type} (record : RecordKind) (c : Checked α) : Import α :=
  match c.about record with
  | .ok a => .ok a
  | .error r => .error (.rejected r)

/-- The field, or `default` if it is absent. -/
def fieldOr (name : String) (default : Json) (fields : Fields) : Json :=
  (fields.get? name).getD default

/-- The value of the field if it counts as true, and `default` otherwise. -/
def truthyOr (name : String) (default : Json) (fields : Fields) : Json :=
  firstTruthy (fieldOr name .null fields) [default]

/-- Converts the objects among the items of a field, in order. -/
def objectsOf {α : Type} (name : String) (convert : Fields → Import α) (fields : Fields) :
    Import (List α) := do
  let items ← coerce (fieldOr name (.arr []) fields).toItems
  (items.filterMap Json.fields?).mapM convert

def importVariable (fields : Fields) : Import VariableDraft :=
  checked .variable (VariableDraft.check
    [("name", fieldOr "name" (.str "") fields),
     ("var_type", truthyOr "type" (.str "bool") fields),
     ("default_value", .str (fieldOr "defaultValue" (.str "") fields).asText),
     ("is_array", .bool (fieldOr "isArray" (.bool false) fields).isTruthy)])

/-- The id in the field, or none, which leaves it open. -/
def idField (name : String) (key : String) (fields : Fields) : Fields :=
  match fields.get? key with
  | some v => if v.isTruthy then [(name, v)] else []
  | none => []

def directionOf (fields : Fields) : PinDirection :=
  match fields.get? "direction" with
  | some (.str s) => if s = PinDirection.output.name then .output else .input
  | _ => .input

def importPin (fields : Fields) : Import PinDraft := do
  let links ← coerce (fieldOr "linkedTo" (.arr []) fields).toItems
  checked .pin (PinDraft.check (idField "id" "id" fields ++
    [("name", fieldOr "name" (.str "") fields),
     ("direction", .str (directionOf fields).name),
     ("pin_type", truthyOr "type" (.str wildcardType) fields),
     ("default_value", .str (fieldOr "defaultValue" (.str "") fields).asText),
     ("linked_to", .arr links)]))

/-- The kinds of the editor's node classes; both event classes are events. -/
def kindsByClass : List (String × NodeKind) :=
  [("K2Node_VariableGet", .variableGet), ("K2Node_VariableSet", .variableSet),
   ("K2Node_CallFunction", .functionCall), ("K2Node_Event", .event),
   ("K2Node_CustomEvent", .event)]

def kindOf (fields : Fields) : Import NodeKind :=
  match fieldOr "class" (.str "") fields with
  | .str s => .ok ((kindsByClass.lookup s).getD .generic)
  | .arr items => .error (.coercion (.unhashable (Json.arr items).typeName))
  | .obj members => .error (.coercion (.unhashable (Json.obj members).typeName))
  | _ => .ok .generic

/-- The first of the three fields for a member that holds one. -/
def memberOf (fields : Fields) : Json :=
  firstTruthy (fieldOr "variableName" .null fields)
    [fieldOr "functionName" .null fields, fieldOr "eventName" .null fields]

def importNode (fields : Fields) : Import NodeDraft := do
  let kind ← kindOf fields
  let pins ← objectsOf "pins" importPin fields
  let posX ← coerce (fieldOr "posX" (.float .zero) fields).toNumber
  let posY ← coerce (fieldOr "posY" (.float .zero) fields).toNumber
  checked .node (NodeDraft.checkAround (.ok pins) (idField "guid" "guid" fields ++
    [("name", fieldOr "name" (.str "") fields),
     ("kind", .str kind.name),
     ("member_name", memberOf fields),
     ("pos_x", .float posX),
     ("pos_y", .float posY)]))

/-- The type that the context names. Without one, a graph called like the event graph is it, and
any other is a function. -/
def graphTypeOf (fields : Fields) : GraphType :=
  let named := match fields.get? "graphType" with
    | some (.str s) => GraphType.ofName? s
    | _ => none
  match named with
  | some type => type
  | none =>
    match fields.get? "name" with
    | some (.str s) => if s = GraphType.eventGraph.name then .eventGraph else .function
    | _ => .function

def importGraph (fields : Fields) : Import GraphDraft := do
  let nodes ← objectsOf "nodes" importNode fields
  checked .graph (GraphDraft.checkAround (.ok nodes)
    [("name", fieldOr "name" (.str "") fields),
     ("graph_type", .str (graphTypeOf fields).name)])

def importFields (fields : Fields) : Import BlueprintDraft := do
  if !(fieldOr "name" .null fields).isTruthy then .error .noName
  let members ← objectsOf "variables" importVariable fields
  let graphs ← objectsOf "graphs" importGraph fields
  checked .blueprint (BlueprintDraft.checkAround (.ok members) (.ok graphs)
    [("name", fieldOr "name" .null fields),
     ("path", fieldOr "path" (.str "") fields),
     ("parent_class", fieldOr "parentClass" .null fields)])

/-- The blueprint that a context describes. -/
def importContext : Json → Import BlueprintDraft
  | .obj fields => importFields fields
  | _ => .error .noName

/-- The contexts in a document: one, or a list of them. -/
def importDocument : Json → Import (List BlueprintDraft)
  | .arr items => items.mapM importContext
  | v => (importContext v).map fun b => [b]

end Context

/-- Why the blueprints of a file are not loaded. -/
inductive ImportFileError
  | file (e : FileError)
  | context (e : ImportError)
deriving DecidableEq, Repr

def ImportFileError.message : ImportFileError → String
  | .file e => e.message
  | .context e => e.message

def Disk.importFile (p : Path) (d : Disk) : Except ImportFileError (List BlueprintDraft) :=
  match d.readJson p with
  | .error e => .error (.file e)
  | .ok v =>
    match Context.importDocument v with
    | .error e => .error (.context e)
    | .ok bs => .ok bs

end BlueprintPatch

import BlueprintPatch.Disk.Disk
import BlueprintPatch.Graph.Blueprint
import BlueprintPatch.Json.Writer

/-! Export of blueprints as contexts, in the form in which they are imported. -/
namespace BlueprintPatch.Context

def exportVariable (v : Variable) : Json :=
  .obj [("name", .str v.name), ("type", .str v.varType), ("defaultValue", .str v.defaultValue),
    ("isArray", .bool v.isArray)]

def exportPin (p : Pin) : Json :=
  .obj [("id", .str p.id), ("name", .str p.name), ("type", .str p.pinType),
    ("direction", .str p.direction.name), ("defaultValue", .str p.defaultValue),
    ("isConnected", .bool (!p.linkedTo.isEmpty)), ("connectionCount", .int p.linkedTo.length),
    ("linkedTo", .arr (p.linkedTo.map .str))]

/-- The field for the member of a node; a generic node has none. -/
def memberField? : NodeKind → Option String
  | .variableGet => some "variableName"
  | .variableSet => some "variableName"
  | .functionCall => some "functionName"
  | .event => some "eventName"
  | .generic => none

def memberFields (node : Node) : Fields :=
  match memberField? node.kind, node.memberName with
  | some field, some name => if name = "" then [] else [(field, .str name)]
  | _, _ => []

def exportNode (node : Node) : Json :=
  .obj ([("name", .str node.name), ("guid", .str node.guid), ("class", .str node.kind.className),
    ("posX", .float node.posX), ("posY", .float node.posY),
    ("pins", .arr (node.pins.map exportPin))] ++ memberFields node)

def exportGraph (g : Graph) : Json :=
  .obj [("name", .str g.name), ("graphType", .str g.graphType.name),
    ("nodes", .arr (g.nodes.map exportNode)), ("nodeCount", .int g.nodes.length)]

def parentFields (b : Blueprint) : Fields :=
  match b.parentClass with
  | some name => if name = "" then [] else [("parentClass", .str name)]
  | none => []

/-- The context of a blueprint; `time` is the time of the export. -/
def exportContext (time : String) (b : Blueprint) : Json :=
  .obj ([("name", .str b.name), ("path", .str b.path), ("type", .str "Blueprint"),
    ("timestamp", .str time), ("variables", .arr (b.members.map exportVariable)),
    ("graphs", .arr (b.graphs.map exportGraph))] ++ parentFields b)

/-- Writes the context of a blueprint to a file, whose directory is made if need be. What has been
made stays when the file cannot be written. -/
def exportFile (time : String) (b : Blueprint) (p : Path) (d : Disk) :
    Disk × Except DiskError Unit :=
  match d.makeAll p.parent with
  | (d, .error e) => (d, .error e)
  | (d, .ok ()) =>
    match d.write p ((exportContext time b).write .spread) with
    | .error e => (d, .error e)
    | .ok d => (d, .ok ())

end BlueprintPatch.Context

import BlueprintPatch.Graph.Blueprint
import BlueprintPatch.Json.Value

/-! Blueprints as they are written to the store: every field, flags and counts included. -/
namespace BlueprintPatch

def Pin.record (p : Pin) : Json :=
  .obj [("id", .str p.id), ("name", .str p.name), ("direction", .str p.direction.name),
    ("pin_type", .str p.pinType), ("default_value", .str p.defaultValue),
    ("linked_to", .arr (p.linkedTo.map .str))]

def optionalText : Option String → Json
  | some s => .str s
  | none => .null

def Node.record (node : Node) : Json :=
  .obj [("name", .str node.name), ("guid", .str node.guid), ("kind", .str node.kind.name),
    ("member_name", optionalText node.memberName), ("pos_x", .float node.posX),
    ("pos_y", .float node.posY), ("pins", .arr (node.pins.map Pin.record))]

def Graph.record (g : Graph) : Json :=
  .obj [("name", .str g.name), ("graph_type", .str g.graphType.name),
    ("nodes", .arr (g.nodes.map Node.record))]

def Variable.record (v : Variable) : Json :=
  .obj [("name", .str v.name), ("var_type", .str v.varType),
    ("default_value", .str v.defaultValue), ("is_array", .bool v.isArray)]

def Blueprint.record (b : Blueprint) : Json :=
  .obj [("name", .str b.name), ("path", .str b.path),
    ("parent_class", optionalText b.parentClass),
    ("variables", .arr (b.members.map Variable.record)),
    ("graphs", .arr (b.graphs.map Graph.record)),
    ("modified", .bool b.modified), ("modification_count", .int b.modificationCount)]

end BlueprintPatch

import BlueprintPatch.Patch.Kind

/-! Why a patch is refused: the causes, the stable code of each and its message. -/
namespace BlueprintPatch

inductive ErrorCode
  | emptyPatch
  | malformedJson
  | missingRequiredField
  | blueprintNotFound
  | variableNotFound
  | variableAlreadyExists
  | graphNotFound
  | nodeNotFound
  | unsupportedNodeType
  | notImplemented
  | unknownOperationType
  | engineBusy
deriving DecidableEq, Repr

def ErrorCode.name : ErrorCode → String
  | .emptyPatch => "EmptyPatch"
  | .malformedJson => "MalformedJson"
  | .missingRequiredField => "MissingRequiredField"
  | .blueprintNotFound => "BlueprintNotFound"
  | .variableNotFound => "VariableNotFound"
  | .variableAlreadyExists => "VariableAlreadyExists"
  | .graphNotFound => "GraphNotFound"
  | .nodeNotFound => "NodeNotFound"
  | .unsupportedNodeType => "UnsupportedNodeType"
  | .notImplemented => "NotImplemented"
  | .unknownOperationType => "UnknownOperationType"
  | .engineBusy => "EngineBusy"

/-- Why one operation cannot be carried out. -/
inductive Refusal
  | typeMissing
  | blueprintMissing
  | unknownType (type : String)
  | notImplemented (kind : OperationKind)
  | fieldInvalid (kind : OperationKind) (field : String)
  | blueprintNotFound (id : String)
  | variableNotFound (name : String)
  | variableExists (name : String)
  | graphNotFound (name : String)
  | nodeNotFound (key : String)
  | nodeTypeUnsupported (type : String)
  | nodeTypeNotCreated (type : String)
  | memberMissing (type field : String)
deriving DecidableEq, Repr

namespace Refusal

def code : Refusal → ErrorCode
  | typeMissing => .missingRequiredField
  | blueprintMissing => .missingRequiredField
  | unknownType _ => .unknownOperationType
  | notImplemented _ => .notImplemented
  | fieldInvalid _ _ => .missingRequiredField
  | blueprintNotFound _ => .blueprintNotFound
  | variableNotFound _ => .variableNotFound
  | variableExists _ => .variableAlreadyExists
  | graphNotFound _ => .graphNotFound
  | nodeNotFound _ => .nodeNotFound
  | nodeTypeUnsupported _ => .unsupportedNodeType
  | nodeTypeNotCreated _ => .unsupportedNodeType
  | memberMissing _ _ => .missingRequiredField

/-- What the kinds without an implementation are called. -/
def subject : OperationKind → String
  | .nodeModify => "Node modification"
  | .connectionAdd => "Connection operations"
  | .connectionRemove => "Connection operations"
  | kind => kind.name

def message : Refusal → String
  | typeMissing => "Operation missing 'type' field"
  | blueprintMissing => "Operation missing 'blueprint' field"
  | unknownType type => "Unknown operation type: " ++ type
  | notImplemented kind => subject kind ++ " not yet implemented (" ++ kind.name ++ ")"
  | fieldInvalid kind field =>
    kind.name ++ " operation missing or invalid field '" ++ field ++ "'"
  | blueprintNotFound id => "Blueprint not found: " ++ id
  | variableNotFound name => "Variable not found: " ++ name
  | variableExists name => "Variable already exists: " ++ name
  | graphNotFound name => "Graph not found: " ++ name
  | nodeNotFound key => "Node not found: " ++ key
  | nodeTypeUnsupported type => "Unsupported node type: " ++ type
  | nodeTypeNotCreated type => "Failed to create node of type: " ++ type
  | memberMissing type field => type ++ " node requires field '" ++ field ++ "'"

end Refusal

end BlueprintPatch

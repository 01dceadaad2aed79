/-! The kinds of operation that a patch may hold. -/
namespace BlueprintPatch

inductive OperationKind
  | variableRename
  | nodeAdd
  | nodeModify
  | nodeDelete
  | connectionAdd
  | connectionRemove
deriving DecidableEq, Repr

namespace OperationKind

def name : OperationKind → String
  | variableRename => "variable_rename"
  | nodeAdd => "node_add"
  | nodeModify => "node_modify"
  | nodeDelete => "node_delete"
  | connectionAdd => "connection_add"
  | connectionRemove => "connection_remove"

def all : List OperationKind :=
  [variableRename, nodeAdd, nodeModify, nodeDelete, connectionAdd, connectionRemove]

def ofName? (s : String) : Option OperationKind := all.find? (·.name = s)

/-- Whether operations of this kind can be carried out at all. -/
def isImplemented : OperationKind → Bool
  | variableRename => true
  | nodeAdd => true
  | nodeDelete => true
  | _ => false

end OperationKind

end BlueprintPatch

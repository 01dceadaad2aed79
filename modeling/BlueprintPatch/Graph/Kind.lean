/-! The closed choices of a graph: which way a pin points, what a node does, what a graph is. -/
namespace BlueprintPatch

inductive PinDirection
  | input
  | output
deriving DecidableEq, Repr

def PinDirection.name : PinDirection → String
  | .input => "Input"
  | .output => "Output"

def PinDirection.all : List PinDirection := [.input, .output]

def PinDirection.ofName? (s : String) : Option PinDirection := all.find? (·.name = s)

inductive NodeKind
  | variableGet
  | variableSet
  | functionCall
  | event
  | generic
deriving DecidableEq, Repr

namespace NodeKind

def name : NodeKind → String
  | variableGet => "VariableGet"
  | variableSet => "VariableSet"
  | functionCall => "FunctionCall"
  | event => "Event"
  | generic => "Node"

def all : List NodeKind := [variableGet, variableSet, functionCall, event, generic]

def ofName? (s : String) : Option NodeKind := all.find? (·.name = s)

theorem ofName?_name (k : NodeKind) : ofName? k.name = some k := by cases k <;> rfl

/-- The class of the editor's own nodes of this kind. -/
def className : NodeKind → String
  | variableGet => "K2Node_VariableGet"
  | variableSet => "K2Node_VariableSet"
  | functionCall => "K2Node_CallFunction"
  | event => "K2Node_Event"
  | generic => "K2Node"

/-- Whether a node of this kind refers to a variable by its member name. -/
def isVariable : NodeKind → Bool
  | variableGet => true
  | variableSet => true
  | _ => false

end NodeKind

inductive GraphType
  | eventGraph
  | function
  | macroGraph
deriving DecidableEq, Repr

def GraphType.name : GraphType → String
  | .eventGraph => "EventGraph"
  | .function => "Function"
  | .macroGraph => "Macro"

def GraphType.all : List GraphType := [.eventGraph, .function, .macroGraph]

def GraphType.ofName? (s : String) : Option GraphType := all.find? (·.name = s)

theorem PinDirection.ofName?_name (d : PinDirection) : ofName? d.name = some d := by
  cases d <;> rfl

theorem GraphType.ofName?_name (t : GraphType) : ofName? t.name = some t := by cases t <;> rfl

end BlueprintPatch

import BlueprintPatch.Json.Reader
import BlueprintPatch.Patch.Refusal

/-! Patch documents: JSON text that holds one operation or a list of them. Operations are kept as
they were decoded; their fields are checked when they are validated. -/
namespace BlueprintPatch

/-- An operation as it stands in the patch, with its place in the list of operations. -/
structure RawOperation where
  index : Nat
  fields : Fields
deriving Repr

namespace RawOperation

/-- The text of a field, if it has any. -/
def textField? (name : String) (op : RawOperation) : Option String :=
  match (op.fields.get? name).bind Json.spelt? with
  | some s => if s = "" then none else some s
  | none => none

theorem textField?_str {name s : String} {op : RawOperation}
    (h : op.fields.get? name = some (.str s)) :
    op.textField? name = if s = "" then none else some s := by
  rw [textField?, h]
  rfl

def type? (op : RawOperation) : Option String := op.textField? "type"

def blueprint? (op : RawOperation) : Option String := op.textField? "blueprint"

def kind? (op : RawOperation) : Option OperationKind := op.type?.bind OperationKind.ofName?

def describe (op : RawOperation) : String :=
  "#" ++ toString op.index ++ " '" ++ op.type?.getD "?" ++ "' on '" ++ op.blueprint?.getD "?" ++ "'"

end RawOperation

/-- Why a document holds no operations. -/
inductive DocumentError
  | notText
  | undecodable (text : Points) (fault : Json.Fault)
  | notObject
  | noOperations
deriving DecidableEq, Repr

namespace DocumentError

def code : DocumentError → ErrorCode
  | noOperations => .emptyPatch
  | _ => .malformedJson

def message : DocumentError → String
  | notText => "Invalid JSON format: patch must be text"
  | undecodable text fault => "Invalid JSON format: " ++ fault.message (text.map CodePoint.shown)
  | notObject => "Invalid JSON format: patch is not a JSON object"
  | noOperations => "No valid operations found in patch JSON"

end DocumentError

structure Document where
  operations : List RawOperation
  metadata : Fields
  error : Option DocumentError
deriving Repr

namespace Document

def failed (e : DocumentError) : Document := ⟨[], [], some e⟩

/-- The objects among the elements, each with its place. -/
def operationsOf (elements : List Json) : List RawOperation :=
  elements.zipIdx.filterMap fun (v, i) => v.fields?.map (RawOperation.mk i)

def rawOperations (fields : Fields) : List RawOperation :=
  match fields.get? "operations" with
  | some (.arr elements) => operationsOf elements
  | some _ => []
  | none => if fields.has "type" then [⟨0, fields⟩] else []

def metadataOf (fields : Fields) : Fields := ((fields.get? "metadata").bind Json.fields?).getD []

def ofFields (fields : Fields) : Document :=
  let operations := rawOperations fields
  ⟨operations, metadataOf fields, if operations.isEmpty then some .noOperations else none⟩

def ofPoints (text : Points) : Document :=
  match Json.readPoints text with
  | .error fault => failed (.undecodable text fault)
  | .ok (.obj fields) => ofFields fields
  | .ok _ => failed .notObject

/-- A patch has to be text. -/
def ofValue (v : Json) : Document :=
  match v.points? with
  | some text => ofPoints text
  | none => failed .notText

theorem ofValue_str (text : String) :
    ofValue (.str text) = match Json.read text with
      | .error fault => failed (.undecodable (.ofString text) fault)
      | .ok (.obj fields) => ofFields fields
      | .ok _ => failed .notObject := rfl

def isEmpty (d : Document) : Bool := d.operations.isEmpty

end Document

end BlueprintPatch

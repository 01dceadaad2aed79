import BlueprintPatch.Graph.Creation
import BlueprintPatch.Graph.Place
import BlueprintPatch.Patch.Engine
import BlueprintPatch.Context.Import
import BlueprintPatch.Store.Store

/-! What the actions of a session answer, and why they fail. -/
namespace BlueprintPatch.Session

inductive Failure
  | missing (m : Missing)
  | crash (c : Crash)
  | transaction (e : TransactionError)
  | context (e : ImportError)
  | file (e : ImportFileError)
  | draft (e : DraftError)
  | rejected (r : Rejection)
  | coercion (e : CoercionError)
  /-- A text that names none of the values of a type. -/
  | notChoice (name type : String)
  | build (e : BuildError)
  | creation (e : CreationError)
  | store (e : StoreError)
  | disk (e : DiskError)
deriving DecidableEq, Repr

def Failure.message : Failure → String
  | .missing m => m.message
  | .crash c => c.message
  | .transaction e => e.message
  | .context e => e.message
  | .file e => e.message
  | .draft e => e.message
  | .rejected r => r.message
  | .coercion e => e.message
  | .notChoice name type => Text.quoted name ++ " is not a valid " ++ type
  | .build e => e.message
  | .creation e => e.message
  | .store e => e.message
  | .disk e => e.message

/-- What a blueprint has under a name: the index of a variable and of a graph, a node, the places
of the blueprint and the graph that hold the node, and the type of the variable. -/
structure Finding where
  member : Option Nat
  graph : Option Nat
  node : Option Node
  owner : Option (Nat × Nat)
  type : Option String
deriving Repr

structure PinFinding where
  index : Nat
  isExec : Bool
  onVariableNode : Bool
deriving DecidableEq, Repr

inductive Answer
  | nothing
  | truth (b : Bool)
  | count (n : Nat)
  | place (i : Option Nat)
  | label (s : Option String)
  | outcome (o : Outcome)
  | notifications (ns : List Notification)
  /-- What a check or a handler says of an operation: a summary and the typed record. -/
  | verdict (r : Except Refusal (String × Option Operation))
  | scope (s : Scope)
  | names (ns : List String)
  /-- Names and paths of blueprints. -/
  | identities (ns : List (String × String))
  | context (v : Json)
  /-- The text of a written file, if it was written. -/
  | written (text : Option String)
  | finding (f : Finding)
  | pin (p : Option PinFinding)
  | object (live : Option Place) (o : Object)
  | blueprint (b : Option Blueprint)
  | saved (key : String) (version : Int)
  | versions (vs : List Int)
  | files (fs : List (String × Content))

end BlueprintPatch.Session

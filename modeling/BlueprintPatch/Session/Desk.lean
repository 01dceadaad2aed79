import BlueprintPatch.Session.Answer
import BlueprintPatch.Settings

/-! A session at the desk of an editor: one engine and the things that its user has at hand. An
action changes the session and answers or fails; what it changed before it failed stays. -/
namespace BlueprintPatch

namespace Session

/-- What a user has beside the engine. -/
structure Desk where
  /-- A transaction without a history. -/
  bare : Scope
  notifications : List Notification
  /-- Whether nobody takes notice of reports. -/
  silent : Bool
  disk : Disk
  /-- Whether the directory of the store has been made. -/
  opened : Bool
  held : List (String × Handle)
  saved : List (String × Snapshot)

def Desk.new (silent : Bool) : Desk := ⟨Scope.closed, [], silent, Disk.empty, false, [], []⟩

end Session

structure Session where
  engine : Engine
  desk : Session.Desk

namespace Session

/-- A session with an engine that has these settings and this model. -/
def new (s : Settings) (silent : Bool) (m : Model) : Session :=
  ⟨Engine.new m s.undoDepth s.transactionLabel, Desk.new silent⟩

/-- Why a session does not begin. -/
inductive SetupError
  | context (e : ImportError)
  | settings (e : SettingsError)
deriving DecidableEq, Repr

def SetupError.message : SetupError → String
  | .context e => e.message
  | .settings e => e.message

/-- A session that has the blueprints of these contexts. They are made before the settings. -/
def ofValues (contexts settings : Json) (silent : Bool) : Except SetupError Session := do
  let items ← contexts.toItems.mapError fun e => .context (.coercion e)
  let drafts ← (items.mapM Context.importContext).mapError .context
  let settings ← (Settings.ofValue settings).mapError .settings
  return new settings silent (Model.empty.loadAll drafts)

abbrev Action (α : Type) := ExceptT Failure (StateM Session) α

namespace Action

variable {α : Type}

/-- The outcome of a step that can fail in its own way. -/
def ofExcept {ε : Type} (describe : ε → Failure) : Except ε α → Action α
  | .ok a => pure a
  | .error e => throw (describe e)

def require (missing : Missing) : Option α → Action α
  | some a => pure a
  | none => throw (.missing missing)

/-- What a text names among the values of a type. -/
def choose (type : String) (ofName? : String → Option α) (name : String) : Action α :=
  match ofName? name with
  | some a => pure a
  | none => throw (.notChoice name type)

def model : Action Model := do return (← get).engine.model

def setModel (m : Model) : Action Unit :=
  modify fun s => { s with engine := { s.engine with model := m } }

def changeModel (f : Model → Model) : Action Unit := do setModel (f (← model))

def desk : Action Desk := do return (← get).desk

def changeDesk (f : Desk → Desk) : Action Unit := modify fun s => { s with desk := f s.desk }

def run (a : Action α) (s : Session) : Except Failure α × Session := StateT.run (ExceptT.run a) s

end Action

inductive BlueprintAddress
  | listed (r : Reference)
  | held (name : String)
deriving DecidableEq, Repr

inductive NodeAddress
  | found (blueprint : Reference) (key : String)
  | held (name : String)
deriving DecidableEq, Repr

structure PinAddress where
  node : NodeAddress
  pin : Reference
  direction : Option String
deriving DecidableEq, Repr

/-- What is held, by the object that holds it. -/
inductive ObjectAddress
  | blueprint (a : Reference)
  | graph (blueprint : Reference) (graph : Reference)
  | node (a : NodeAddress)
  | pin (a : PinAddress)
  | member (blueprint : Reference) (name : String)
deriving DecidableEq, Repr

namespace Action

def blueprintAt (r : Reference) : Action Blueprint := do
  require (.blueprint r) ((← model).blueprintAt? r)

def graphAt (b : Blueprint) (r : Reference) : Action Graph :=
  require (.graph r) (b.graphAt? r)

def heldObject (name : String) : Action Object := do
  let h ← require (.held name) ((← desk).held.lookup name)
  require (.held name) ((← model).object? h)

def blueprint : BlueprintAddress → Action Blueprint
  | .listed r => blueprintAt r
  | .held name => do
    match ← heldObject name with
    | .blueprint b => return b
    | _ => throw (.missing (.held name))

def node : NodeAddress → Action Node
  | .found r key => do require (.node key) ((← blueprintAt r).findNode? key)
  | .held name => do
    match ← heldObject name with
    | .node x => return x
    | _ => throw (.missing (.held name))

/-- The direction that is asked for; the empty text asks for none. -/
def direction (name : Option String) : Action (Option PinDirection) :=
  (name.filter (· ≠ "")).mapM (choose "PinDirection" PinDirection.ofName?)

def pin (a : PinAddress) : Action Pin := do
  let x ← node a.node
  match a.pin with
  | .index _ => require (.pin a.pin) (x.pinAt? a.pin none)
  | .name _ => do require (.pin a.pin) (x.pinAt? a.pin (← direction a.direction))

def object : ObjectAddress → Action Object
  | .blueprint r => do return .blueprint (← blueprintAt r)
  | .graph b g => do return .graph (← graphAt (← blueprintAt b) g)
  | .node a => do return .node (← node a)
  | .pin a => do return .pin (← pin a)
  | .member b name => do
    return .member (← require (.member name) ((← blueprintAt b).members.find? (·.name = name)))

def hold (name : String) (h : Handle) : Action Unit :=
  changeDesk fun d => { d with held := (name, h) :: d.held }

end Action

end Session

end BlueprintPatch

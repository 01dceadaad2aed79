import BlueprintPatch.Session.Desk

/-! Actions on the engine: patches, checks of operations, transactions and saved states. -/
namespace BlueprintPatch.Session

/-- What the user does when a patch has ended: another action, or to give up with a text. -/
structure Callback where
  onSuccess : Bool
  action : Except String (Action Answer)

/-- The actions that a report sets off, with their answers in reverse. -/
structure Reaction where
  session : Session
  answers : List (Except Failure Answer)
  crash : Option Crash

def Desk.record (r : Report) (d : Desk) : Desk :=
  { d with notifications := d.notifications ++ r.notifications }

/-- Carries out a callback, unless one before it has given up. -/
def Reaction.follow (r : Reaction) (c : Callback) : Reaction :=
  if r.crash.isSome then r
  else match c.action with
    | .error text => { r with crash := some (.host text) }
    | .ok action =>
      let (answer, s) := action.run r.session
      ⟨s, answer :: r.answers, none⟩

/-- Records the report and carries out the callbacks that are for it, in order, unless the desk is
silent. The desk and the answers are what is kept beside the engine. -/
def sink (callbacks : List Callback) : Sink (Desk × List (Except Failure Answer)) :=
  fun report e (d, answers) =>
    if d.silent then (e, (d, answers), none)
    else
      let wanted := callbacks.filter (·.onSuccess = report.isSuccess)
      let r := wanted.foldl Reaction.follow ⟨⟨e, d.record report⟩, answers, none⟩
      (r.session.engine, (r.session.desk, r.answers), r.crash)

/-- Applies a patch in a session; the answers of the callbacks come with it. -/
def applyWith (handler : Handler) (callbacks : List Callback) (text : Json) (s : Session) :
    (Except Crash Outcome × Session) × List (Except Failure Answer) :=
  let (e, (d, answers), result) := s.engine.applyWith handler (sink callbacks) text (s.desk, [])
  ((result, ⟨e, d⟩), answers.reverse)

namespace Action

def ofApplication (handler : Handler) (text : Json) : Action Outcome := do
  let ((result, s), _) := applyWith handler [] text (← get)
  set s
  ofExcept .crash result

def apply (text : Json) : Action Answer := do return .outcome (← ofApplication Operation.handle text)

def applyPatch (text : Json) : Action Answer := do
  return .truth (← ofApplication Operation.handle text).success

/-- A handler that fails on operations of one kind, after it has renamed the first variable. -/
def failingHandler (kind : OperationKind) (name : String) : Handler := fun op m =>
  if op.kind ≠ kind then op.handle m
  else match m.loaded with
    | [] => .crashed m .index
    | b :: _ =>
      match b.members with
      | [] => .crashed m .index
      | v :: rest =>
        .crashed (m.update { b with members := { v with name := name } :: rest }) (.host "boom")

def applyBroken (kindName : String) (name : String) (text : Json) : Action Answer := do
  let kind ← choose "PatchOperationType" OperationKind.ofName? kindName
  return .outcome (← ofApplication (failingHandler kind name) text)

def canApply (text : Json) : Action Answer := do
  let s ← get
  let (answer, e) := s.engine.canApply text
  set { s with engine := e }
  return .truth answer

/-- The notifications so far, which are forgotten. -/
def drain : Action Answer := do
  let notifications := (← desk).notifications
  changeDesk fun d => { d with notifications := [] }
  return .notifications notifications

def validate (operation : Json) : Action Answer := do
  let raw ← ofExcept .rejected (RawOperation.ofValue 0 operation)
  return .verdict ((raw.validate (← model)).map fun op => ("", some op))

/-- Checks operations that are all there before the first is checked. -/
def validateAll (operations : Json) : Action Answer := do
  let items ← ofExcept .coercion operations.toItems
  let raw ← ofExcept .rejected (items.zipIdx.mapM fun (v, i) => RawOperation.ofValue i v)
  return .verdict ((BlueprintPatch.validateAll (← model) raw).map fun _ =>
    (toString raw.length ++ " operation(s) valid", none))

/-- Carries out an operation without a transaction and without validation. -/
def handle (operation : Json) : Action Answer := do
  let op ← ofExcept .build (Operation.ofValue operation)
  match op.apply (← model) with
  | .error r => return .verdict (.error r)
  | .ok (m, summary) =>
    setModel m
    return .verdict (.ok (summary, none))

/-- Whose transaction is meant: that of the engine, or the one without a history. -/
inductive Owner
  | engine
  | bare
deriving DecidableEq, Repr

def changeEngine (f : Engine → Except TransactionError Engine) : Action Answer := do
  let s ← get
  let e ← ofExcept .transaction (f s.engine)
  set { s with engine := e }
  return .scope e.scope

def begin (owner : Owner) (label : String) : Action Answer :=
  match owner with
  | .engine => changeEngine (·.begin label)
  | .bare => do
    let (scope, _) ← ofExcept .transaction ((← desk).bare.begin label (← model) none)
    changeDesk fun d => { d with bare := scope }
    return .scope scope

def commit (owner : Owner) : Action Answer :=
  match owner with
  | .engine => changeEngine Engine.commit
  | .bare => do
    let (scope, _) ← ofExcept .transaction ((← desk).bare.commit (← model) none)
    changeDesk fun d => { d with bare := scope }
    return .scope scope

def rollback (owner : Owner) : Action Answer :=
  match owner with
  | .engine => changeEngine Engine.rollback
  | .bare => do
    let (scope, _, m) ← ofExcept .transaction ((← desk).bare.rollback (← model) none)
    setModel m
    changeDesk fun d => { d with bare := scope }
    return .scope scope

def changeHistory (f : Engine → Except TransactionError (Option String × Engine)) :
    Action Answer := do
  let s ← get
  let (label, e) ← ofExcept .transaction (f s.engine)
  set { s with engine := e }
  return .label label

def undo : Action Answer := changeHistory Engine.undo

def redo : Action Answer := changeHistory Engine.redo

def snapshot (name : String) : Action Answer := do
  let saved := (← model).snapshot
  changeDesk fun d => { d with saved := (name, saved) :: d.saved }
  return .count saved.length

def restore (name : String) : Action Answer := do
  let saved ← require (.held name) ((← desk).saved.lookup name)
  changeModel (·.restore saved)
  return .nothing

end Action

end BlueprintPatch.Session

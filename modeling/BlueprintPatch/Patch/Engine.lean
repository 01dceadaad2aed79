import BlueprintPatch.Graph.History
import BlueprintPatch.Patch.Application
import BlueprintPatch.Patch.Notification

/-! The engine: it applies a whole patch inside one transaction, or nothing of it. Operations are
validated and applied one after the other; the first that is refused ends the patch. One call runs
at a time: a call that is made while another one reports its end is refused. -/
namespace BlueprintPatch

inductive Phase
  | idle
  | parsing
  | validating
  | applying
  | committed
  | rolledBack
deriving DecidableEq, Repr

def Phase.name : Phase → String
  | .idle => "Idle"
  | .parsing => "Parsing"
  | .validating => "Validating"
  | .applying => "Applying"
  | .committed => "Committed"
  | .rolledBack => "RolledBack"

/-- A failure as it is reported. -/
structure PatchError where
  code : ErrorCode
  message : String
deriving DecidableEq, Repr

def Refusal.report (r : Refusal) : PatchError := ⟨r.code, r.message⟩

/-- The result of a whole patch; it is a success if there is no error. -/
structure Outcome where
  applied : Nat
  count : Nat
  error : Option PatchError
  metadata : Fields
deriving Repr

def Outcome.success (o : Outcome) : Bool := o.error.isNone

/-- What is raised and not reported. -/
inductive Crash
  | transaction (e : TransactionError)
  /-- An error of the program that embeds the engine. -/
  | host (text : String)
  /-- An item was asked for that a list does not have. -/
  | index
deriving DecidableEq, Repr

def Crash.message : Crash → String
  | .transaction e => e.message
  | .host text => text
  | .index => "list index out of range"

structure Engine where
  model : Model
  history : History
  scope : Scope
  /-- The label of the transactions that the engine begins. -/
  label : String
  phase : Phase
  error : Option PatchError
  busy : Bool
  lastOutcome : Option Outcome
deriving Repr

/-- What a handler makes of an operation. -/
inductive Handled
  | done (m : Model) (summary : String)
  | refused (r : Refusal)
  | crashed (m : Model) (c : Crash)

/-- Carries out an operation that has been validated. -/
abbrev Handler := Operation → Model → Handled

def Operation.handle : Handler := fun op m =>
  match op.apply m with
  | .ok (m, summary) => .done m summary
  | .error r => .refused r

/-- How a list of operations ended: after how many that succeeded, and why not later. -/
inductive RunEnd
  | completed
  | refused (r : Refusal)
  | crashed (c : Crash)

structure Run where
  model : Model
  applied : Nat
  ending : RunEnd

/-- Validates and applies the operations in turn, up to the first that fails. -/
def runOperations (handler : Handler) : List RawOperation → Nat → Model → Run
  | [], applied, m => ⟨m, applied, .completed⟩
  | op :: rest, applied, m =>
    match op.validate m with
    | .error r => ⟨m, applied, .refused r⟩
    | .ok typed =>
      match handler typed m with
      | .refused r => ⟨m, applied, .refused r⟩
      | .crashed m c => ⟨m, applied, .crashed c⟩
      | .done m _ => runOperations handler rest (applied + 1) m

/-- Whoever is told how a patch ended. It may call the engine again, keeps a state of its own and
may crash. -/
abbrev Sink (σ : Type) := Report → Engine → σ → Engine × σ × Option Crash

/-- A sink that does nothing. -/
def silentSink : Sink Unit := fun _ e s => (e, s, none)

namespace Engine

def new (m : Model) (depth : Int) (label : String) : Engine :=
  ⟨m, History.empty depth, Scope.closed, label, .idle, none, false, none⟩

def busyError : PatchError := ⟨.engineBusy, "Patch engine is busy applying another patch"⟩

/-- All errors of a document are reported as an empty patch. -/
def emptyError (d : Document) : PatchError :=
  ⟨.emptyPatch, (d.error.map DocumentError.message).getD ""⟩

def begin (label : String) (e : Engine) : Except TransactionError Engine :=
  (e.scope.begin label e.model (some e.history)).map fun (scope, h) =>
    { e with scope := scope, history := h.getD e.history }

def commit (e : Engine) : Except TransactionError Engine :=
  (e.scope.commit e.model (some e.history)).map fun (scope, h) =>
    { e with scope := scope, history := h.getD e.history }

def rollback (e : Engine) : Except TransactionError Engine :=
  (e.scope.rollback e.model (some e.history)).map fun (scope, h, m) =>
    { e with scope := scope, history := h.getD e.history, model := m }

def undo (e : Engine) : Except TransactionError (Option String × Engine) :=
  (e.history.undo e.model).map fun (label, h, m) => (label, { e with history := h, model := m })

def redo (e : Engine) : Except TransactionError (Option String × Engine) :=
  (e.history.redo e.model).map fun (label, h, m) => (label, { e with history := h, model := m })

/-- The engine at the end of a call, and the outcome if there was no crash. -/
def finish {σ : Type} (o : Outcome) : Engine × σ × Option Crash → Engine × σ × Except Crash Outcome
  | (e, s, some c) => ({ e with busy := false }, s, .error c)
  | (e, s, none) => ({ e with busy := false, lastOutcome := some o }, s, .ok o)

/-- The end of a run inside the transaction that the engine has begun: the engine with the
transaction closed, the outcome and the report of it. -/
def conclude (d : Document) (run : Run) (e : Engine) :
    Except TransactionError (Engine × Except Crash (Outcome × Report)) :=
  let e := { e with model := run.model }
  let count := d.operations.length
  match run.ending with
  | .completed => do
    let e ← e.commit
    .ok ({ e with phase := .committed },
      .ok (⟨run.applied, count, none, d.metadata⟩, .success count))
  | .refused r => do
    let e ← e.rollback
    .ok ({ e with phase := .rolledBack, error := some r.report },
      .ok (⟨run.applied, count, some r.report, d.metadata⟩, .failure r.message))
  | .crashed c => do
    let e ← e.rollback
    .ok ({ e with phase := .rolledBack }, .error c)

/-- Applies a patch with the given handler and tells the sink how it ended. -/
def applyWith {σ : Type} (handler : Handler) (sink : Sink σ) (text : Json) (e : Engine) (s : σ) :
    Engine × σ × Except Crash Outcome :=
  if e.busy then (e, s, .ok ⟨0, 0, some busyError, []⟩)
  else
    let e := { e with busy := true, error := none, phase := .parsing }
    let d := Document.ofValue text
    if d.isEmpty then
      let error := emptyError d
      finish ⟨0, 0, some error, d.metadata⟩
        ({ e with error := some error, phase := .rolledBack }, s, none)
    else
      let crash (c : TransactionError) := ({ e with busy := false }, s, .error (.transaction c))
      match e.begin e.label with
      | .error c => crash c
      | .ok begun =>
        match begun.conclude d (runOperations handler d.operations 0 begun.model) with
        | .error c => crash c
        | .ok (e, .error c) => ({ e with busy := false }, s, .error c)
        | .ok (e, .ok (o, report)) => finish o (sink report e s)

def apply {σ : Type} (sink : Sink σ) (text : Json) (e : Engine) (s : σ) :
    Engine × σ × Except Crash Outcome :=
  applyWith Operation.handle sink text e s

/-- Whether every operation of a patch is valid in the present model. -/
def canApply (text : Json) (e : Engine) : Bool × Engine :=
  if e.busy then (false, e)
  else
    let d := Document.ofValue text
    let error :=
      if d.isEmpty then some (emptyError d)
      else match validateAll e.model d.operations with
        | .error r => some r.report
        | .ok () => none
    (error.isNone, { e with error := error, phase := .idle })

end Engine

end BlueprintPatch

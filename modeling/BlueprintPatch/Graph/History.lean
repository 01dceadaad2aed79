import BlueprintPatch.Graph.Model

/-! Undo history and transactions. A transaction saves the state of the model when it begins;
rolling back returns to it, committing records it in the history together with the state reached.
While a transaction is open the history that it reports to is locked. -/
namespace BlueprintPatch

inductive TransactionError
  | cannotUndo
  | cannotRedo
  | stillOpen (opened label : String)
  | nothingToCommit
  | nothingToRollBack
deriving DecidableEq, Repr

def TransactionError.message : TransactionError → String
  | .cannotUndo => "Cannot undo while a transaction is open"
  | .cannotRedo => "Cannot redo while a transaction is open"
  | .stillOpen opened label =>
    "Transaction '" ++ opened ++ "' is still open; cannot begin '" ++ label ++ "'"
  | .nothingToCommit => "No open transaction to commit"
  | .nothingToRollBack => "No open transaction to roll back"

/-- One committed transaction. -/
structure Entry where
  label : String
  before : Snapshot
  after : Snapshot
deriving Repr

/-- Committed transactions, the newest first, that can be undone, and undone ones, the last one
first, that can be redone. `depth` bounds the former. -/
structure History where
  done : List Entry
  undone : List Entry
  locked : Bool
  depth : Int
deriving Repr

namespace History

def empty (depth : Int) : History := ⟨[], [], false, depth⟩

def canUndo (h : History) : Bool := !h.done.isEmpty && !h.locked

def canRedo (h : History) : Bool := !h.undone.isEmpty && !h.locked

/-- The labels of what can be undone, the oldest first. -/
def labels (h : History) : List String := (h.done.map (·.label)).reverse

def lock (h : History) : History := { h with locked := true }

def unlock (h : History) : History := { h with locked := false }

/-- Records a committed transaction; beyond the depth the oldest one is dropped. -/
def record (e : Entry) (h : History) : History :=
  let done := e :: h.done
  { h with done := if h.depth < done.length then done.dropLast else done, undone := [] }

/-- Returns to the state before the newest transaction; none if there is nothing to undo. -/
def undo (h : History) (m : Model) : Except TransactionError (Option String × History × Model) :=
  if h.locked then .error .cannotUndo
  else match h.done with
    | [] => .ok (none, h, m)
    | e :: rest =>
      .ok (some e.label, { h with done := rest, undone := e :: h.undone }, m.restore e.before)

/-- Returns to the state after the transaction undone last; none if there is nothing to redo. -/
def redo (h : History) (m : Model) : Except TransactionError (Option String × History × Model) :=
  if h.locked then .error .cannotRedo
  else match h.undone with
    | [] => .ok (none, h, m)
    | e :: rest =>
      .ok (some e.label, { h with done := e :: h.done, undone := rest }, m.restore e.after)

end History

/-- A transaction that is open, with the state at its beginning. -/
structure Opened where
  label : String
  before : Snapshot
deriving Repr

/-- A place for at most one open transaction. -/
structure Scope where
  opened : Option Opened
deriving Repr

namespace Scope

def closed : Scope := ⟨none⟩

def isOpen (s : Scope) : Bool := s.opened.isSome

def label? (s : Scope) : Option String := s.opened.map (·.label)

/-- Begins a transaction; `h` is the history that the scope reports to, if it has one. -/
def begin (label : String) (m : Model) (h : Option History) (s : Scope) :
    Except TransactionError (Scope × Option History) :=
  match s.opened with
  | some o => .error (.stillOpen o.label label)
  | none => .ok (⟨some ⟨label, m.snapshot⟩⟩, h.map History.lock)

def commit (m : Model) (h : Option History) (s : Scope) :
    Except TransactionError (Scope × Option History) :=
  match s.opened with
  | none => .error .nothingToCommit
  | some o => .ok (closed, h.map fun h => h.unlock.record ⟨o.label, o.before, m.snapshot⟩)

def rollback (m : Model) (h : Option History) (s : Scope) :
    Except TransactionError (Scope × Option History × Model) :=
  match s.opened with
  | none => .error .nothingToRollBack
  | some o => .ok (closed, h.map History.unlock, m.restore o.before)

end Scope

end BlueprintPatch

import BlueprintPatch.Proofs.Entries
import BlueprintPatch.Proofs.Locking

/-! The depth of a history. However many transactions report to it and in whatever order they are
committed, rolled back, undone and redone, the two stacks together never hold more entries than the
depth allows, and what is lost are the oldest ones. -/
namespace BlueprintPatch

namespace History

/-- The stacks together hold no more entries than the depth allows; below zero it allows none. -/
def Bounded (h : History) : Prop := h.done.length + h.undone.length ≤ h.depth.toNat

/-- What may become of a history, the newest entries of whose stacks come first. -/
inductive Turn (h h' : History) : Prop
  | kept (locked : Bool) : h' = { h with locked := locked } → Turn h h'
  | committed (x : Entry) :
      h' = { h with done := (x :: h.done).take h.depth.toNat, undone := [], locked := false } →
      Turn h h'
  | undone (x : Entry) (rest : List Entry) : h.done = x :: rest →
      h' = { h with done := rest, undone := x :: h.undone } → Turn h h'
  | redone (x : Entry) (rest : List Entry) : h.undone = x :: rest →
      h' = { h with done := x :: h.done, undone := rest } → Turn h h'

variable {h h' : History}

theorem bounded_empty (depth : Int) : (empty depth).Bounded := Nat.zero_le _

theorem Turn.refl (h : History) : h.Turn h := .kept h.locked rfl

theorem Turn.depth (hturn : h.Turn h') : h'.depth = h.depth := by
  cases hturn with
  | kept _ heq | committed _ heq | undone _ _ _ heq | redone _ _ _ heq => rw [heq]

/-- Only a commit adds an entry, and it keeps the bound. -/
theorem Turn.bounded (hturn : h.Turn h') (hbounded : h.Bounded) : h'.Bounded := by
  unfold Bounded at hbounded
  cases hturn with
  | kept _ heq =>
    rw [heq]
    exact hbounded
  | committed x heq =>
    rw [heq, Bounded, List.length_take]
    exact Nat.min_le_left _ _
  | undone x rest hdone heq =>
    rw [hdone, List.length_cons] at hbounded
    have hmoved : rest.length + (h.undone.length + 1) ≤ h.depth.toNat := by omega
    rw [heq]
    exact hmoved
  | redone x rest hundone heq =>
    rw [hundone, List.length_cons] at hbounded
    have hmoved : (h.done.length + 1) + rest.length ≤ h.depth.toNat := by omega
    rw [heq]
    exact hmoved

/-- The entry that a commit records takes the place of the oldest one if the stack is full. -/
theorem Bounded.record_unlock (hbounded : h.Bounded) (x : Entry) :
    h.unlock.record x =
      { h with done := (x :: h.done).take h.depth.toNat, undone := [], locked := false } := by
  have hdone : (h.unlock.record x).done = (x :: h.done).take h.depth.toNat :=
    done_record x (Nat.le_trans (Nat.le_add_right _ _) hbounded)
  rw [← hdone]
  rfl

end History

namespace Call

variable {ι : Type} [DecidableEq ι] {w : Workbench ι}

theorem run_of_error {c : Call ι} {x : TransactionError} (h : c.perform w = .error x) :
    c.run w = w := by
  rw [run, h]

theorem run_undo_idle (h : w.history.locked = true ∨ w.history.done = []) : undo.run w = w := by
  cases hlocked : w.history.locked with
  | true =>
    exact run_of_error (x := .cannotUndo) (by simp [perform, History.undo, hlocked, Except.map])
  | false =>
    have hdone : w.history.done = [] := by simpa [hlocked] using h
    rw [run, perform, History.undo_nil w.model hlocked hdone]
    rfl

theorem run_undo_cons (hlocked : w.history.locked = false) {x : Entry} {rest : List Entry}
    (hdone : w.history.done = x :: rest) :
    undo.run w = ⟨w.model.restore x.before,
      { w.history with done := rest, undone := x :: w.history.undone }, w.scope⟩ := by
  rw [run, perform, History.undo_cons w.model hlocked hdone]
  rfl

theorem run_redo_idle (h : w.history.locked = true ∨ w.history.undone = []) : redo.run w = w := by
  cases hlocked : w.history.locked with
  | true =>
    exact run_of_error (x := .cannotRedo) (by simp [perform, History.redo, hlocked, Except.map])
  | false =>
    have hundone : w.history.undone = [] := by simpa [hlocked] using h
    rw [run, perform, History.redo_nil w.model hlocked hundone]
    rfl

theorem run_redo_cons (hlocked : w.history.locked = false) {x : Entry} {rest : List Entry}
    (hundone : w.history.undone = x :: rest) :
    redo.run w = ⟨w.model.restore x.after,
      { w.history with done := x :: w.history.done, undone := rest }, w.scope⟩ := by
  rw [run, perform, History.redo_cons w.model hlocked hundone]
  rfl

theorem history_begin (i : ι) (label : String) (w : Workbench ι) :
    ∃ locked, ((begin i label).run w).history = { w.history with locked := locked } := by
  cases ho : (w.scope i).opened with
  | none => exact ⟨true, by simp [run, perform, Scope.begin, ho, Except.map, History.lock]⟩
  | some o => exact ⟨w.history.locked, by simp [run, perform, Scope.begin, ho, Except.map]⟩

theorem history_rollback (i : ι) (w : Workbench ι) :
    ∃ locked, ((rollback i).run w).history = { w.history with locked := locked } := by
  cases ho : (w.scope i).opened with
  | none => exact ⟨w.history.locked, by simp [run, perform, Scope.rollback, ho, Except.map]⟩
  | some o => exact ⟨false, by simp [run, perform, Scope.rollback, ho, Except.map, History.unlock]⟩

theorem history_commit {i : ι} {o : Opened} (ho : (w.scope i).opened = some o)
    (hbounded : w.history.Bounded) :
    ((commit i).run w).history =
      { w.history with
        done := (⟨o.label, o.before, w.model.snapshot⟩ :: w.history.done).take w.history.depth.toNat
        undone := [], locked := false } := by
  rw [← hbounded.record_unlock]
  simp [run, perform, Scope.commit, ho, Except.map]

/-- A patch that is applied records one entry; any other leaves the stacks as they are. -/
theorem turn_apply (hbounded : w.history.Bounded) (i : ι) (e : Engine) (text : Json) :
    w.history.Turn ((apply i e text).run w).history := by
  have hrun : ((apply i e text).run w).history =
      ((w.engine i e).apply silentSink text ()).1.history := rfl
  rw [hrun]
  have hcourse := Engine.course silentSink () text (w.engine i e)
  generalize (w.engine i e).apply silentSink text () = result at hcourse
  cases hcourse with
  | busy hbusy => exact .refl _
  | empty hidle h => exact .refl _
  | opened hidle ho hne => exact .refl _
  | completed hidle hclosed hne h => exact .committed _ (hbounded.record_unlock _)
  | refused hidle hclosed hops h hr => exact .kept false rfl

theorem turn_run (hbounded : w.history.Bounded) (c : Call ι) :
    w.history.Turn (c.run w).history := by
  cases c with
  | begin i label =>
    obtain ⟨locked, h⟩ := history_begin i label w
    exact .kept locked h
  | commit i =>
    cases ho : (w.scope i).opened with
    | none =>
      rw [run_of_error (x := .nothingToCommit) (by simp [perform, Scope.commit, ho, Except.map])]
      exact .refl _
    | some o => exact .committed _ (history_commit ho hbounded)
  | rollback i =>
    obtain ⟨locked, h⟩ := history_rollback i w
    exact .kept locked h
  | apply i e text => exact turn_apply hbounded i e text
  | undo =>
    by_cases hidle : w.history.locked = true ∨ w.history.done = []
    · rw [run_undo_idle hidle]
      exact .refl _
    · obtain ⟨hlocked, hne⟩ := not_or.mp hidle
      obtain ⟨x, rest, hdone⟩ := List.exists_cons_of_ne_nil hne
      rw [run_undo_cons (Bool.not_eq_true _ ▸ hlocked) hdone]
      exact .undone x rest hdone rfl
  | redo =>
    by_cases hidle : w.history.locked = true ∨ w.history.undone = []
    · rw [run_redo_idle hidle]
      exact .refl _
    · obtain ⟨hlocked, hne⟩ := not_or.mp hidle
      obtain ⟨x, rest, hundone⟩ := List.exists_cons_of_ne_nil hne
      rw [run_redo_cons (Bool.not_eq_true _ ▸ hlocked) hundone]
      exact .redone x rest hundone rfl
  | edit f => exact .refl _

end Call

/-- There are the same entries to be undone and the same to be redone. -/
structure History.SameStacks (h h' : History) : Prop where
  done : h'.done = h.done
  undone : h'.undone = h.undone

theorem History.sameStacks_of_locked {h h' : History} {locked : Bool}
    (heq : h' = { h with locked := locked }) : h.SameStacks h' := by
  rw [heq]
  exact ⟨rfl, rfl⟩

namespace Workbench

variable {ι : Type} [DecidableEq ι]

theorem history_undo_redo {w : Workbench ι} (hlocked : w.history.locked = false) {x : Entry}
    {rest : List Entry} (hdone : w.history.done = x :: rest) :
    (Call.redo.run (Call.undo.run w)).history = w.history := by
  have hback := congrArg history (Call.run_undo_cons hlocked hdone)
  have hlocked' : (Call.undo.run w).history.locked = false := by rw [hback]; exact hlocked
  have hundone : (Call.undo.run w).history.undone = x :: w.history.undone := by rw [hback]
  rw [Call.run_redo_cons hlocked' hundone, hback, ← hdone]

theorem history_redo_undo {w : Workbench ι} (hlocked : w.history.locked = false) {x : Entry}
    {rest : List Entry} (hundone : w.history.undone = x :: rest) :
    (Call.undo.run (Call.redo.run w)).history = w.history := by
  have hback := congrArg history (Call.run_redo_cons hlocked hundone)
  have hlocked' : (Call.redo.run w).history.locked = false := by rw [hback]; exact hlocked
  have hdone : (Call.redo.run w).history.done = x :: w.history.done := by rw [hback]
  rw [Call.run_undo_cons hlocked' hdone, hback, ← hundone]

/-- Redoing brings back what undoing has taken back, unless there was nothing to undo: then it
brings back an entry undone before, if there is one. -/
theorem sameStacks_undo_redo_iff (w : Workbench ι) :
    w.history.SameStacks (Call.redo.run (Call.undo.run w)).history ↔
      w.history.locked = true ∨ w.history.done ≠ [] ∨ w.history.undone = [] := by
  cases hlocked : w.history.locked with
  | true =>
    rw [Call.run_undo_idle (.inl hlocked), Call.run_redo_idle (.inl hlocked)]
    exact iff_of_true ⟨rfl, rfl⟩ (.inl rfl)
  | false =>
    cases hdone : w.history.done with
    | cons x rest =>
      rw [history_undo_redo hlocked hdone]
      exact iff_of_true ⟨rfl, rfl⟩ (by simp)
    | nil =>
      rw [Call.run_undo_idle (.inr hdone)]
      cases hundone : w.history.undone with
      | nil =>
        rw [Call.run_redo_idle (.inr hundone)]
        exact iff_of_true ⟨rfl, rfl⟩ (by simp)
      | cons x rest =>
        rw [Call.run_redo_cons hlocked hundone]
        refine iff_of_false (fun h => ?_) (by simp)
        exact absurd (h.done.trans hdone) (List.cons_ne_nil _ _)

theorem sameStacks_redo_undo_iff (w : Workbench ι) :
    w.history.SameStacks (Call.undo.run (Call.redo.run w)).history ↔
      w.history.locked = true ∨ w.history.undone ≠ [] ∨ w.history.done = [] := by
  cases hlocked : w.history.locked with
  | true =>
    rw [Call.run_redo_idle (.inl hlocked), Call.run_undo_idle (.inl hlocked)]
    exact iff_of_true ⟨rfl, rfl⟩ (.inl rfl)
  | false =>
    cases hundone : w.history.undone with
    | cons x rest =>
      rw [history_redo_undo hlocked hundone]
      exact iff_of_true ⟨rfl, rfl⟩ (by simp)
    | nil =>
      rw [Call.run_redo_idle (.inr hundone)]
      cases hdone : w.history.done with
      | nil =>
        rw [Call.run_undo_idle (.inr hdone)]
        exact iff_of_true ⟨rfl, rfl⟩ (by simp)
      | cons x rest =>
        rw [Call.run_undo_cons hlocked hdone]
        refine iff_of_false (fun h => ?_) (by simp)
        exact absurd (h.undone.trans hundone) (List.cons_ne_nil _ _)

theorem bounded_after {w : Workbench ι} (hw : w.history.Bounded) (calls : List (Call ι)) :
    (w.after calls).history.Bounded ∧ (w.after calls).history.depth = w.history.depth := by
  induction calls using List.reverseRecOn with
  | nil => exact ⟨hw, rfl⟩
  | append_singleton calls c ih =>
    rw [after_concat]
    have hturn := Call.turn_run ih.1 c
    exact ⟨hturn.bounded ih.1, hturn.depth.trans ih.2⟩

/-- After any calls the stacks together hold no more entries than the depth allows. The next call
keeps both, moves one entry between them or commits one; a commit leaves nothing to be redone, and of
the entries to be undone, the new one among them, the newest ones. To undo and redo, or to redo and
undo, leaves both as they are unless the first of the two finds nothing to do and the second does. -/
theorem stacks_bounded (calls : List (Call ι)) (m : Model) (depth : Int) :
    let w : Workbench ι := (new m depth).after calls
    w.history.done.length + w.history.undone.length ≤ depth.toNat ∧
    w.history.depth = depth ∧
    (∀ c : Call ι, w.history.Turn (c.run w).history) ∧
    (∀ i o, (w.scope i).opened = some o →
      ((Call.commit i).run w).history.undone = [] ∧
      ((Call.commit i).run w).history.done =
        (⟨o.label, o.before, w.model.snapshot⟩ :: w.history.done).take depth.toNat) ∧
    (∀ i, w.history.SameStacks ((Call.rollback i).run w).history) ∧
    (w.history.SameStacks (Call.redo.run (Call.undo.run w)).history ↔
      w.history.locked = true ∨ w.history.done ≠ [] ∨ w.history.undone = []) ∧
    (w.history.SameStacks (Call.undo.run (Call.redo.run w)).history ↔
      w.history.locked = true ∨ w.history.undone ≠ [] ∨ w.history.done = []) := by
  intro w
  obtain ⟨hbounded, hdepth⟩ : w.history.Bounded ∧ w.history.depth = depth :=
    bounded_after (w := new m depth) (History.bounded_empty depth) calls
  refine ⟨hdepth ▸ hbounded, hdepth, Call.turn_run hbounded, fun i o ho => ?_, fun i => ?_,
    w.sameStacks_undo_redo_iff, w.sameStacks_redo_undo_iff⟩
  · rw [Call.history_commit ho hbounded, hdepth]
    exact ⟨rfl, rfl⟩
  · obtain ⟨locked, h⟩ := Call.history_rollback i w
    exact History.sameStacks_of_locked h

def threeEdits : List (Call Unit) :=
  [.begin () "first", .commit (), .begin () "second", .commit (), .begin () "third"]

/-- With a depth of one the third takes the place of the second, as the second did of the first. -/
theorem stacks_bounded_threeEdits :
    let w : Workbench Unit := (new Model.empty 1).after threeEdits
    w.history.done.map Entry.label = ["second"] ∧
    (w.scope ()).opened = some ⟨"third", Model.empty.snapshot⟩ ∧
    ((Call.commit ()).run w).history.undone = [] ∧
    ((Call.commit ()).run w).history.done =
      [⟨"third", Model.empty.snapshot, Model.empty.snapshot⟩] :=
  ⟨rfl, rfl, (stacks_bounded threeEdits Model.empty 1).2.2.2.1 () _ rfl⟩

/-- Where everything has been undone there is nothing to undo, and redoing brings an entry back. -/
theorem not_sameStacks_undo_redo :
    ¬ ∀ (calls : List (Call Unit)) (m : Model) (depth : Int),
      let w := (new m depth).after calls
      w.history.SameStacks (Call.redo.run (Call.undo.run w)).history := by
  intro h
  have hdone := (h [.begin () "Edit", .commit (), .undo] Model.empty 50).done
  exact absurd hdone (by simp [after, new, Call.run, Call.perform, Scope.begin, Scope.commit,
    Scope.closed, History.empty, History.lock, History.unlock, History.record, History.undo,
    History.redo, Except.map])

end Workbench

end BlueprintPatch

import BlueprintPatch.Proofs.Batch
import Mathlib.Data.List.Induction
import Mathlib.Logic.Function.Basic

/-! Several transactions over one model that report to one history, as those of an editor and of an
engine that shares the editor's history. The history has one lock for all of them: whichever began
or ended last has set it. So undoing is refused while a transaction is open as long as no two of
them are open at a time, and not otherwise. -/
namespace BlueprintPatch

/-- What is shared, and the scope of each who shares it. -/
structure Workbench (ι : Type) where
  model : Model
  history : History
  scope : ι → Scope

/-- What those at the workbench may do. An engine has the scope of one of them; what else there is
to the engine is given with the call. What a sink does to the workbench when it is told of a patch
comes after the transaction of the patch, so it is a call of its own. -/
inductive Call (ι : Type)
  | begin (i : ι) (label : String)
  | commit (i : ι)
  | rollback (i : ι)
  | apply (i : ι) (e : Engine) (text : Json)
  | undo
  | redo
  | edit (f : Model → Model)

namespace Workbench

variable {ι : Type}

def new (m : Model) (depth : Int) : Workbench ι := ⟨m, History.empty depth, fun _ => .closed⟩

def IsOpen (i : ι) (w : Workbench ι) : Prop := (w.scope i).isOpen = true

/-- The engine `e` at the workbench, with the scope of `i`. -/
def engine (i : ι) (e : Engine) (w : Workbench ι) : Engine :=
  { e with model := w.model, history := w.history, scope := w.scope i }

@[simp] theorem scope_engine (i : ι) (e : Engine) (w : Workbench ι) :
    (w.engine i e).scope = w.scope i := rfl

theorem opened_of_isOpen {i : ι} {w : Workbench ι} (h : w.IsOpen i) :
    ∃ o, (w.scope i).opened = some o :=
  Option.isSome_iff_exists.mp h

theorem opened_of_not_isOpen {i : ι} {w : Workbench ι} (h : ¬ w.IsOpen i) :
    (w.scope i).opened = none := by
  simpa [IsOpen, Scope.isOpen] using h

end Workbench

namespace Call

variable {ι : Type} [DecidableEq ι]

/-- The workbench after the call, or the error that the call raises. -/
def perform (w : Workbench ι) : Call ι → Except TransactionError (Workbench ι)
  | begin i label =>
    ((w.scope i).begin label w.model (some w.history)).map fun (s, h) =>
      ⟨w.model, h.getD w.history, Function.update w.scope i s⟩
  | commit i =>
    ((w.scope i).commit w.model (some w.history)).map fun (s, h) =>
      ⟨w.model, h.getD w.history, Function.update w.scope i s⟩
  | rollback i =>
    ((w.scope i).rollback w.model (some w.history)).map fun (s, h, m) =>
      ⟨m, h.getD w.history, Function.update w.scope i s⟩
  | apply i e text =>
    let e := ((w.engine i e).apply silentSink text ()).1
    .ok ⟨e.model, e.history, Function.update w.scope i e.scope⟩
  | undo => (w.history.undo w.model).map fun (_, h, m) => ⟨m, h, w.scope⟩
  | redo => (w.history.redo w.model).map fun (_, h, m) => ⟨m, h, w.scope⟩
  | edit f => .ok { w with model := f w.model }

/-- A call that raises changes nothing. -/
def run (w : Workbench ι) (c : Call ι) : Workbench ι :=
  match c.perform w with
  | .ok w' => w'
  | .error _ => w

end Call

/-- Undoing and redoing are refused: neither is offered, both raise, and nothing changes. -/
structure Workbench.Refuses {ι : Type} [DecidableEq ι] (w : Workbench ι) : Prop where
  undo : w.history.undo w.model = .error .cannotUndo
  redo : w.history.redo w.model = .error .cannotRedo
  canUndo : w.history.canUndo = false
  canRedo : w.history.canRedo = false
  kept : Call.undo.run w = w ∧ Call.redo.run w = w

theorem Workbench.refuses_iff_locked {ι : Type} [DecidableEq ι] {w : Workbench ι} :
    w.Refuses ↔ w.history.locked = true := by
  constructor
  · intro h
    by_contra hopen
    have hundo := h.undo
    simp only [History.undo, hopen] at hundo
    cases hdone : w.history.done <;> simp [hdone] at hundo
  · intro h
    have hundo : w.history.undo w.model = .error .cannotUndo := by simp [History.undo, h]
    have hredo : w.history.redo w.model = .error .cannotRedo := by simp [History.redo, h]
    refine ⟨hundo, hredo, by simp [History.canUndo, h], by simp [History.canRedo, h], ?_, ?_⟩
    · simp [Call.run, Call.perform, hundo, Except.map]
    · simp [Call.run, Call.perform, hredo, Except.map]

namespace Call

variable {ι : Type}

/-- The call begins a transaction in the scope of `i` and leaves it open. -/
def Begins (i : ι) (w : Workbench ι) (c : Call ι) : Prop :=
  ∃ label, c = begin i label ∧ ¬ w.IsOpen i

/-- The call applies a patch, in a transaction of its own in the scope of `i`. -/
def Patches (i : ι) (w : Workbench ι) (c : Call ι) : Prop :=
  ∃ e text, c = apply i e text ∧ e.busy = false ∧ (Document.ofValue text).operations ≠ [] ∧
    ¬ w.IsOpen i

/-- The call ends a transaction in the scope of `i`. -/
def Ends (i : ι) (w : Workbench ι) (c : Call ι) : Prop :=
  (c = commit i ∨ c = rollback i) ∧ w.IsOpen i ∨ c.Patches i w

theorem not_ends_of_begins {i : ι} {w : Workbench ι} {c : Call ι} (h : c.Begins i w) (j : ι) :
    ¬ c.Ends j w := by
  obtain ⟨label, rfl, -⟩ := h
  simp [Ends, Patches]

/-- A patch that is carried out leaves the lock off and the engine's scope closed. -/
theorem apply_patches {text : Json} {e : Engine} (hidle : e.busy = false)
    (hne : (Document.ofValue text).operations ≠ []) (hclosed : e.scope.isOpen = false) :
    (e.apply silentSink text ()).1.history.locked = false ∧
      (e.apply silentSink text ()).1.scope = .closed := by
  have hcourse := Engine.course silentSink () text e
  generalize e.apply silentSink text () = result at hcourse
  cases hcourse with
  | busy hbusy => cases hbusy.symm.trans hidle
  | empty _ h => exact absurd h hne
  | opened _ ho _ => simp [Scope.isOpen, ho] at hclosed
  | completed => exact ⟨rfl, rfl⟩
  | refused => exact ⟨rfl, rfl⟩

theorem apply_idles {text : Json} {e : Engine}
    (h : ¬ (e.busy = false ∧ (Document.ofValue text).operations ≠ [] ∧ e.scope.isOpen = false)) :
    (e.apply silentSink text ()).1.history.locked = e.history.locked ∧
      (e.apply silentSink text ()).1.scope = e.scope := by
  have hcourse := Engine.course silentSink () text e
  generalize e.apply silentSink text () = result at hcourse
  cases hcourse with
  | busy => exact ⟨rfl, rfl⟩
  | empty => exact ⟨rfl, rfl⟩
  | opened => exact ⟨rfl, rfl⟩
  | completed hidle hclosed hne _ => exact absurd ⟨hidle, hne, hclosed⟩ h
  | refused hidle hclosed hops _ _ => exact absurd ⟨hidle, by simp [hops], hclosed⟩ h

section

variable [DecidableEq ι] {i : ι} {w : Workbench ι} {c : Call ι}

theorem run_of_begins (h : c.Begins i w) :
    (c.run w).history.locked = true ∧
      ∃ o, (c.run w).scope = Function.update w.scope i ⟨some o⟩ := by
  obtain ⟨label, rfl, hclosed⟩ := h
  have ho := Workbench.opened_of_not_isOpen hclosed
  refine ⟨?_, ⟨label, w.model.snapshot⟩, ?_⟩ <;>
    simp [run, perform, Scope.begin, ho, Except.map, History.lock]

theorem run_of_ends (h : c.Ends i w) :
    (c.run w).history.locked = false ∧ (c.run w).scope = Function.update w.scope i .closed := by
  rcases h with ⟨rfl | rfl, hopen⟩ | ⟨e, text, rfl, hidle, hne, hclosed⟩
  · obtain ⟨o, ho⟩ := Workbench.opened_of_isOpen hopen
    simp [run, perform, Scope.commit, ho, Except.map, History.record, History.unlock]
  · obtain ⟨o, ho⟩ := Workbench.opened_of_isOpen hopen
    simp [run, perform, Scope.rollback, ho, Except.map, History.unlock]
  · have hclosed' : (w.engine i e).scope.isOpen = false := by
      simpa [Workbench.IsOpen] using hclosed
    obtain ⟨hlock, hscope⟩ := apply_patches (e := w.engine i e) hidle hne hclosed'
    exact ⟨hlock, congrArg (Function.update w.scope i) hscope⟩

theorem run_of_neither (hbegins : ∀ i, ¬ c.Begins i w) (hends : ∀ i, ¬ c.Ends i w) :
    (c.run w).history.locked = w.history.locked ∧ (c.run w).scope = w.scope := by
  cases c with
  | begin i label =>
    have hopen : w.IsOpen i := by
      by_contra hclosed
      exact hbegins i ⟨label, rfl, hclosed⟩
    obtain ⟨o, ho⟩ := Workbench.opened_of_isOpen hopen
    simp [run, perform, Scope.begin, ho, Except.map]
  | commit i =>
    have ho := Workbench.opened_of_not_isOpen fun hopen => hends i (.inl ⟨.inl rfl, hopen⟩)
    simp [run, perform, Scope.commit, ho, Except.map]
  | rollback i =>
    have ho := Workbench.opened_of_not_isOpen fun hopen => hends i (.inl ⟨.inr rfl, hopen⟩)
    simp [run, perform, Scope.rollback, ho, Except.map]
  | apply i e text =>
    have hidle : ¬ (e.busy = false ∧ (Document.ofValue text).operations ≠ [] ∧
        (w.engine i e).scope.isOpen = false) := by
      rintro ⟨hbusy, hne, hclosed⟩
      exact hends i (.inr ⟨e, text, rfl, hbusy, hne, by simpa [Workbench.IsOpen] using hclosed⟩)
    obtain ⟨hlock, hscope⟩ := apply_idles (e := w.engine i e) hidle
    exact ⟨hlock, (congrArg (Function.update w.scope i) hscope).trans
      (Function.update_eq_self i w.scope)⟩
  | undo =>
    cases hl : w.history.locked <;> cases hd : w.history.done <;>
      simp [run, perform, History.undo, hl, hd, Except.map]
  | redo =>
    cases hl : w.history.locked <;> cases hd : w.history.undone <;>
      simp [run, perform, History.redo, hl, hd, Except.map]
  | edit f => exact ⟨rfl, rfl⟩

omit [DecidableEq ι] in
theorem begins_or_ends_or_neither (c : Call ι) (w : Workbench ι) :
    (∃ i, c.Begins i w) ∨ (∃ i, c.Ends i w) ∨ (∀ i, ¬ c.Begins i w) ∧ ∀ i, ¬ c.Ends i w := by
  by_cases hbegins : ∃ i, c.Begins i w
  · exact .inl hbegins
  · by_cases hends : ∃ i, c.Ends i w
    · exact .inr (.inl hends)
    · exact .inr (.inr ⟨not_exists.mp hbegins, not_exists.mp hends⟩)

end

end Call

namespace Workbench

variable {ι : Type} [DecidableEq ι]

def after (calls : List (Call ι)) (w : Workbench ι) : Workbench ι := calls.foldl Call.run w

@[simp] theorem after_nil (w : Workbench ι) : w.after [] = w := rfl

theorem after_concat (calls : List (Call ι)) (c : Call ι) (w : Workbench ι) :
    w.after (calls ++ [c]) = c.run (w.after calls) := by simp [after]

/-- Of the calls that began or ended a transaction the last one began one. -/
def LastBegan (calls : List (Call ι)) (w : Workbench ι) : Prop :=
  ∃ before c later i, calls = before ++ c :: later ∧ c.Begins i (w.after before) ∧
    ∀ mid d rest j, later = mid ++ d :: rest → ¬ d.Ends j (w.after (before ++ c :: mid))

/-- No transaction begins, and no patch is applied, while another transaction is open. -/
def OneAtATime (calls : List (Call ι)) (w : Workbench ι) : Prop :=
  ∀ before c later i, calls = before ++ c :: later →
    c.Begins i (w.after before) ∨ c.Patches i (w.after before) →
      ∀ j, ¬ (w.after before).IsOpen j

theorem concat_eq_append_cons_iff {α : Type} {as before later : List α} {a b : α} :
    as ++ [a] = before ++ b :: later ↔
      before = as ∧ b = a ∧ later = [] ∨
        ∃ rest, later = rest ++ [a] ∧ as = before ++ b :: rest := by
  constructor
  · intro h
    rcases List.eq_nil_or_concat later with rfl | ⟨rest, c, rfl⟩
    · obtain ⟨hbefore, hlast⟩ := List.append_inj' h rfl
      exact .inl ⟨hbefore.symm, (List.singleton_inj.mp hlast).symm, rfl⟩
    · rw [List.concat_eq_append, ← List.cons_append, ← List.append_assoc] at h
      obtain ⟨hinit, hlast⟩ := List.append_inj' h rfl
      rw [List.singleton_inj.mp hlast]
      exact .inr ⟨rest, List.concat_eq_append, hinit⟩
  · rintro (⟨rfl, rfl, rfl⟩ | ⟨rest, rfl, rfl⟩) <;> simp

theorem lastBegan_concat_iff (calls : List (Call ι)) (c : Call ι) (w : Workbench ι) :
    LastBegan (calls ++ [c]) w ↔
      (∃ i, c.Begins i (w.after calls)) ∨
        LastBegan calls w ∧ ∀ j, ¬ c.Ends j (w.after calls) := by
  constructor
  · rintro ⟨before, d, later, i, hcalls, hbegins, hlater⟩
    rcases concat_eq_append_cons_iff.mp hcalls with ⟨rfl, rfl, rfl⟩ | ⟨rest, rfl, rfl⟩
    · exact .inl ⟨i, hbegins⟩
    · refine .inr ⟨⟨before, d, rest, i, rfl, hbegins, fun mid e tail j hrest => ?_⟩, fun j => ?_⟩
      · exact hlater mid e (tail ++ [c]) j (by rw [hrest]; simp)
      · exact hlater rest c [] j rfl
  · rintro (⟨i, hbegins⟩ | ⟨⟨before, d, later, i, rfl, hbegins, hlater⟩, hends⟩)
    · exact ⟨calls, c, [], i, rfl, hbegins, by simp⟩
    · refine ⟨before, d, later ++ [c], i, by simp, hbegins, fun mid e tail j hrest => ?_⟩
      rcases concat_eq_append_cons_iff.mp hrest with ⟨rfl, rfl, rfl⟩ | ⟨rest, rfl, rfl⟩
      · exact hends j
      · exact hlater mid e rest j rfl

/-- The lock is on exactly if the last that began or ended a transaction began one. -/
theorem locked_after_iff (calls : List (Call ι)) {w : Workbench ι} (hw : w.history.locked = false) :
    (w.after calls).history.locked = true ↔ LastBegan calls w := by
  induction calls using List.reverseRecOn with
  | nil => simp [LastBegan, hw]
  | append_singleton calls c ih =>
    rw [after_concat, lastBegan_concat_iff, ← ih]
    rcases Call.begins_or_ends_or_neither c (w.after calls) with
      ⟨i, hbegins⟩ | ⟨i, hends⟩ | ⟨hbegins, hends⟩
    · exact iff_of_true (Call.run_of_begins hbegins).1 (.inl ⟨i, hbegins⟩)
    · refine iff_of_false (by simp [(Call.run_of_ends hends).1]) ?_
      rintro (⟨j, hbegins⟩ | ⟨-, hnone⟩)
      · exact Call.not_ends_of_begins hbegins i hends
      · exact hnone i hends
    · rw [(Call.run_of_neither hbegins hends).1]
      constructor
      · exact fun h => .inr ⟨h, hends⟩
      · rintro (⟨j, h⟩ | ⟨h, -⟩)
        · exact absurd h (hbegins j)
        · exact h

/-- As long as no two transactions are open at a time the lock is on exactly while one is open. -/
structure Guarded (w : Workbench ι) : Prop where
  alone : ∀ i j, w.IsOpen i → w.IsOpen j → i = j
  locked_iff : w.history.locked = true ↔ ∃ i, w.IsOpen i

theorem isOpen_update {w w' : Workbench ι} {i : ι} {s : Scope}
    (h : w'.scope = Function.update w.scope i s) (j : ι) :
    w'.IsOpen j ↔ if j = i then s.isOpen = true else w.IsOpen j := by
  by_cases hj : j = i
  · subst hj; simp [IsOpen, h]
  · simp [IsOpen, h, hj]

theorem Guarded.run {w : Workbench ι} (hw : w.Guarded) {c : Call ι}
    (hc : ∀ i, c.Begins i w ∨ c.Patches i w → ∀ j, ¬ w.IsOpen j) : (c.run w).Guarded := by
  rcases Call.begins_or_ends_or_neither c w with
    ⟨i, hbegins⟩ | ⟨i, hends⟩ | ⟨hbegins, hends⟩
  · obtain ⟨hlock, o, hscope⟩ := Call.run_of_begins hbegins
    have hnone := hc i (.inl hbegins)
    have hopen (j : ι) : (c.run w).IsOpen j ↔ j = i := by
      rw [isOpen_update hscope]
      by_cases hj : j = i <;> simp [hj, hnone j, Scope.isOpen]
    exact ⟨fun j k hj hk => ((hopen j).mp hj).trans ((hopen k).mp hk).symm,
      iff_of_true hlock ⟨i, (hopen i).mpr rfl⟩⟩
  · obtain ⟨hlock, hscope⟩ := Call.run_of_ends hends
    -- What ends is the only open transaction, or that of a patch, and then none was open.
    have hnone (j : ι) : ¬ (c.run w).IsOpen j := by
      rw [isOpen_update hscope]
      by_cases hj : j = i
      · simp [hj, Scope.isOpen, Scope.closed]
      · rcases hends with ⟨-, hi⟩ | hpatches
        · simpa [hj] using fun h => hj (hw.alone j i h hi)
        · simpa [hj] using hc i (.inr hpatches) j
    exact ⟨fun j _ hj => absurd hj (hnone j), by simp [hlock, hnone]⟩
  · obtain ⟨hlock, hscope⟩ := Call.run_of_neither hbegins hends
    have hopen (j : ι) : (c.run w).IsOpen j ↔ w.IsOpen j := by simp [IsOpen, hscope]
    exact ⟨fun j k hj hk => hw.alone j k ((hopen j).mp hj) ((hopen k).mp hk), by
      simp only [hlock, hopen, hw.locked_iff]⟩

theorem Guarded.after {w : Workbench ι} (hw : w.Guarded) {calls : List (Call ι)}
    (hone : OneAtATime calls w) : (w.after calls).Guarded := by
  induction calls using List.reverseRecOn with
  | nil => exact hw
  | append_singleton calls c ih =>
    rw [after_concat]
    refine Guarded.run (ih ?_) fun i hi => hone calls c [] i rfl hi
    intro before d later i hcalls hi
    exact hone before d (later ++ [c]) i (by simp [hcalls]) hi

omit [DecidableEq ι] in
theorem guarded_new (m : Model) (depth : Int) : (new m depth : Workbench ι).Guarded :=
  ⟨fun i _ hi => by simp [IsOpen, new, Scope.isOpen, Scope.closed] at hi,
    by simp [IsOpen, new, Scope.isOpen, Scope.closed, History.empty]⟩

/-- The end of a transaction takes the lock off, whoever else has one open. -/
theorem not_refuses_of_ends {w : Workbench ι} {c : Call ι} {i j : ι} (hij : i ≠ j)
    (hends : c.Ends i w) (hj : w.IsOpen j) : ¬ (c.run w).Refuses ∧ (c.run w).IsOpen j := by
  obtain ⟨hlock, hscope⟩ := Call.run_of_ends hends
  refine ⟨fun h => ?_, ?_⟩
  · rw [refuses_iff_locked, hlock] at h
    contradiction
  · rw [isOpen_update hscope, if_neg hij.symm]
    exact hj

/-- Undoing and redoing are refused exactly if, of the calls that began or ended a transaction, the
last one began one. So they are refused exactly while a transaction is open if no two are open at a
time; but if two are, ending either of them admits undoing while the other is open. -/
theorem refuses_exactly (calls : List (Call ι)) (m : Model) (depth : Int) :
    let start : Workbench ι := new m depth
    let w := start.after calls
    (w.Refuses ↔ LastBegan calls start) ∧
    (OneAtATime calls start → (w.Refuses ↔ ∃ i, w.IsOpen i)) ∧
    ∀ i j, i ≠ j → w.IsOpen i → w.IsOpen j →
      ∀ c : Call ι, c = .commit i ∨ c = .rollback i →
      ¬ (c.run w).Refuses ∧ (c.run w).IsOpen j := by
  intro start w
  refine ⟨?_, fun hone => ?_, fun i j hij hi hj c hc => ?_⟩
  · exact refuses_iff_locked.trans (locked_after_iff calls rfl)
  · exact refuses_iff_locked.trans ((guarded_new m depth).after hone).locked_iff
  · exact not_refuses_of_ends hij (.inl ⟨hc, hi⟩) hj

end Workbench

def editing : List (Call Bool) := [.begin false "Edit", .edit (·.load lampDraft)]

theorem oneAtATime_editing : Workbench.OneAtATime editing (.new Model.empty 50) := by
  intro before c later i hcalls hc j hj
  match before, hcalls with
  | [], _ => cases hj
  | [_], hcalls =>
    obtain ⟨-, hcalls⟩ := List.cons.inj hcalls
    obtain ⟨rfl, -⟩ := List.cons.inj hcalls
    simp [Call.Begins, Call.Patches] at hc
  | _ :: _ :: before, hcalls => simp [editing] at hcalls

theorem refuses_exactly_editing :
    Workbench.OneAtATime editing (.new Model.empty 50) ∧
    (Workbench.after editing (.new Model.empty 50)).IsOpen false ∧
    (Workbench.after editing (.new Model.empty 50)).Refuses :=
  ⟨oneAtATime_editing, rfl,
    ((Workbench.refuses_exactly editing Model.empty 50).2.1 oneAtATime_editing).mpr ⟨false, rfl⟩⟩

/-- An editor, `false`, begins a transaction, and another one, `true`, begins and ends one. -/
def overlapping : List (Call Bool) :=
  [.begin false "Edit", .begin true "Apply AI Patch", .commit true]

/-- The first transaction is still open, and undoing is admitted. -/
theorem undo_admitted_while_open :
    ¬ ∀ (calls : List (Call Bool)) (m : Model) (depth : Int),
      (∃ i, ((Workbench.new m depth).after calls).IsOpen i) →
        ((Workbench.new m depth).after calls).Refuses := by
  intro h
  have hrefuses := h overlapping Model.empty 50 ⟨false, rfl⟩
  exact absurd (Workbench.refuses_iff_locked.mp hrefuses) (by decide)

end BlueprintPatch

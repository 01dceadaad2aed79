import BlueprintPatch.Patch.Engine

/-! A patch as a batch: its operations are carried out in turn, each in the model that the ones
before it left, and the engine keeps the result of all of them or nothing of any. -/
namespace BlueprintPatch

theorem bind_eq_ok_iff {ε α β : Type} {x : Except ε α} {f : α → Except ε β} {b : β} :
    (x >>= f) = .ok b ↔ ∃ a, x = .ok a ∧ f a = .ok b := by
  cases x <;> simp [bind, Except.bind]

/-- Validates the operation in the model and applies it there. -/
def RawOperation.step (op : RawOperation) (m : Model) : Except Refusal Model :=
  match op.validate m with
  | .error r => .error r
  | .ok typed => (typed.apply m).map (·.1)

/-- The model after all operations in turn, or the refusal of the first that fails. -/
def runInTurn (ops : List RawOperation) (m : Model) : Except Refusal Model :=
  ops.foldlM (fun m op => op.step m) m

@[simp] theorem runInTurn_nil (m : Model) : runInTurn [] m = .ok m := rfl

theorem runInTurn_cons_eq_ok_iff {op : RawOperation} {ops : List RawOperation} {m m' : Model} :
    runInTurn (op :: ops) m = .ok m' ↔
      ∃ next, op.step m = .ok next ∧ runInTurn ops next = .ok m' :=
  bind_eq_ok_iff

theorem runInTurn_ok_or_refused (ops : List RawOperation) (m : Model) :
    (∃ m', runInTurn ops m = .ok m') ∨
      ∃ before op after m' r,
        ops = before ++ op :: after ∧ runInTurn before m = .ok m' ∧ op.step m' = .error r := by
  induction ops generalizing m with
  | nil => exact .inl ⟨m, rfl⟩
  | cons op ops ih =>
    cases hstep : op.step m with
    | error r => exact .inr ⟨[], op, ops, m, r, rfl, rfl, hstep⟩
    | ok next =>
      rcases ih next with ⟨m', h⟩ | ⟨before, op', after, m', r, rfl, hbefore, hr⟩
      · exact .inl ⟨m', runInTurn_cons_eq_ok_iff.mpr ⟨next, hstep, h⟩⟩
      · exact .inr ⟨op :: before, op', after, m', r, rfl,
          runInTurn_cons_eq_ok_iff.mpr ⟨next, hstep, hbefore⟩, hr⟩

theorem runOperations_step {op : RawOperation} {m m' : Model} (h : op.step m = .ok m')
    (rest : List RawOperation) (k : Nat) :
    runOperations Operation.handle (op :: rest) k m =
      runOperations Operation.handle rest (k + 1) m' := by
  unfold RawOperation.step at h
  cases hv : op.validate m with
  | error r => simp [hv] at h
  | ok typed =>
    cases ha : typed.apply m with
    | error r => simp [hv, ha, Except.map] at h
    | ok p =>
      simp only [hv, ha, Except.map, Except.ok.injEq] at h
      simp [runOperations, hv, Operation.handle, ha, h]

theorem runOperations_stop {op : RawOperation} {m : Model} {r : Refusal} (h : op.step m = .error r)
    (rest : List RawOperation) (k : Nat) :
    runOperations Operation.handle (op :: rest) k m = ⟨m, k, .refused r⟩ := by
  unfold RawOperation.step at h
  cases hv : op.validate m with
  | error r' => simpa [runOperations, hv] using h
  | ok typed =>
    cases ha : typed.apply m with
    | error r' => simpa [runOperations, hv, Operation.handle, ha, Except.map] using h
    | ok p => simp [hv, ha, Except.map] at h

theorem runOperations_append {ops : List RawOperation} {m m' : Model}
    (h : runInTurn ops m = .ok m') (rest : List RawOperation) (k : Nat) :
    runOperations Operation.handle (ops ++ rest) k m =
      runOperations Operation.handle rest (k + ops.length) m' := by
  induction ops generalizing m k with
  | nil =>
    obtain rfl : m = m' := by simpa using h
    rfl
  | cons op ops ih =>
    obtain ⟨next, hstep, hrest⟩ := runInTurn_cons_eq_ok_iff.mp h
    rw [List.cons_append, runOperations_step hstep, ih hrest, List.length_cons]
    congr 1
    omega

theorem runOperations_completed {ops : List RawOperation} {m m' : Model}
    (h : runInTurn ops m = .ok m') :
    runOperations Operation.handle ops 0 m = ⟨m', ops.length, .completed⟩ := by
  have hrun := runOperations_append h [] 0
  rw [List.append_nil, Nat.zero_add] at hrun
  exact hrun

theorem runOperations_refused {before : List RawOperation} {op : RawOperation} {m m' : Model}
    {r : Refusal} (h : runInTurn before m = .ok m') (hr : op.step m' = .error r)
    (after : List RawOperation) :
    runOperations Operation.handle (before ++ op :: after) 0 m =
      ⟨m', before.length, .refused r⟩ := by
  rw [runOperations_append h, runOperations_stop hr, Nat.zero_add]

namespace Engine

def begun (e : Engine) : Engine :=
  { e with
    history := e.history.lock
    scope := ⟨some ⟨e.label, e.model.snapshot⟩⟩
    phase := .parsing, error := none, busy := true }

/-- The engine as the sink finds it after a patch that led to `m`. -/
def committed (m : Model) (e : Engine) : Engine :=
  { e with
    model := m
    history := e.history.unlock.record ⟨e.label, e.model.snapshot, m.snapshot⟩
    scope := .closed, phase := .committed, error := none, busy := true }

/-- The engine as the sink finds it after a patch that `r` ended in `m`. -/
def rolledBack (m : Model) (r : Refusal) (e : Engine) : Engine :=
  { e with
    model := m.restore e.model.snapshot
    history := e.history.unlock
    scope := .closed, phase := .rolledBack, error := some r.report, busy := true }

theorem conclude_completed (d : Document) (m : Model) (k : Nat) (e : Engine) :
    e.begun.conclude d ⟨m, k, .completed⟩ =
      .ok (e.committed m,
        .ok (⟨k, d.operations.length, none, d.metadata⟩, .success d.operations.length)) := rfl

theorem conclude_refused (d : Document) (m : Model) (k : Nat) (r : Refusal) (e : Engine) :
    e.begun.conclude d ⟨m, k, .refused r⟩ =
      .ok (e.rolledBack m r,
        .ok (⟨k, d.operations.length, some r.report, d.metadata⟩, .failure r.message)) := rfl

variable {σ : Type} (sink : Sink σ) {text : Json} (s : σ) {e : Engine}

theorem finish_of_returned {o : Outcome} {r : Engine × σ × Option Crash} (h : r.2.2 = none) :
    finish o r = ({ r.1 with busy := false, lastOutcome := some o }, r.2.1, .ok o) := by
  obtain ⟨e, s, c⟩ := r
  obtain rfl : c = none := h
  rfl

@[simp] theorem model_finish (o : Outcome) (r : Engine × σ × Option Crash) :
    (finish o r).1.model = r.1.model := by
  obtain ⟨e, s, c⟩ := r
  cases c <;> rfl

theorem apply_of_busy (h : e.busy = true) :
    e.apply sink text s = (e, s, .ok ⟨0, 0, some busyError, []⟩) := by
  simp [apply, applyWith, h]

theorem apply_of_empty (hidle : e.busy = false) (h : (Document.ofValue text).operations = []) :
    e.apply sink text s =
      finish ⟨0, 0, some (emptyError (Document.ofValue text)), (Document.ofValue text).metadata⟩
        ({ e with error := some (emptyError (Document.ofValue text)), phase := .rolledBack,
                  busy := true }, s, none) := by
  simp [apply, applyWith, hidle, Document.isEmpty, h]

/-- Where a transaction is open the patch cannot begin one of its own. -/
theorem apply_of_opened (hidle : e.busy = false) {o : Opened} (ho : e.scope.opened = some o)
    (hne : (Document.ofValue text).operations ≠ []) :
    e.apply sink text s =
      ({ e with busy := false, error := none, phase := .parsing }, s,
        .error (.transaction (.stillOpen o.label e.label))) := by
  simp [apply, applyWith, hidle, Document.isEmpty, hne, Engine.begin, Scope.begin, ho, Except.map]

theorem begin_of_closed (hclosed : e.scope.isOpen = false) :
    Engine.begin e.label { e with busy := true, error := none, phase := .parsing } = .ok e.begun := by
  have hopened : e.scope.opened = none := by simpa [Scope.isOpen] using hclosed
  simp [Engine.begin, Scope.begin, hopened, Except.map, begun]

/-- A patch that has operations and finds the transaction closed is run inside a transaction; the
sink is told when that is over. -/
theorem apply_of_conclude (hidle : e.busy = false) (hclosed : e.scope.isOpen = false)
    (hne : (Document.ofValue text).operations ≠ []) {told : Engine} {o : Outcome} {report : Report}
    (h : e.begun.conclude (Document.ofValue text)
      (runOperations Operation.handle (Document.ofValue text).operations 0 e.model) =
        .ok (told, .ok (o, report))) :
    e.apply sink text s = finish o (sink report told s) := by
  have hmodel : e.begun.model = e.model := rfl
  simp only [apply, applyWith, hidle, Document.isEmpty, List.isEmpty_iff, hne,
    begin_of_closed hclosed, hmodel, h]
  rfl

theorem apply_of_completed (hidle : e.busy = false) (hclosed : e.scope.isOpen = false)
    (hne : (Document.ofValue text).operations ≠ []) {m : Model}
    (h : runInTurn (Document.ofValue text).operations e.model = .ok m) :
    let d := Document.ofValue text
    e.apply sink text s =
      finish ⟨d.operations.length, d.operations.length, none, d.metadata⟩
        (sink (.success d.operations.length) (e.committed m) s) := by
  apply apply_of_conclude sink s hidle hclosed hne
  rw [runOperations_completed h, conclude_completed]

theorem apply_of_refused (hidle : e.busy = false) (hclosed : e.scope.isOpen = false)
    {before after : List RawOperation} {op : RawOperation} {m : Model} {r : Refusal}
    (hops : (Document.ofValue text).operations = before ++ op :: after)
    (h : runInTurn before e.model = .ok m) (hr : op.step m = .error r) :
    let d := Document.ofValue text
    e.apply sink text s =
      finish ⟨before.length, d.operations.length, some r.report, d.metadata⟩
        (sink (.failure r.message) (e.rolledBack m r) s) := by
  have hne : (Document.ofValue text).operations ≠ [] := by simp [hops]
  apply apply_of_conclude sink s hidle hclosed hne
  rw [hops, runOperations_refused h hr after, conclude_refused, hops]

/-- The ways that a patch can go. -/
inductive Course (sink : Sink σ) (text : Json) (e : Engine) (s : σ) :
    Engine × σ × Except Crash Outcome → Prop
  | busy (hbusy : e.busy = true) : Course sink text e s (e, s, .ok ⟨0, 0, some busyError, []⟩)
  | empty (hidle : e.busy = false) (h : (Document.ofValue text).operations = []) :
    Course sink text e s
      (finish ⟨0, 0, some (emptyError (Document.ofValue text)), (Document.ofValue text).metadata⟩
        ({ e with error := some (emptyError (Document.ofValue text)), phase := .rolledBack,
                  busy := true }, s, none))
  | opened (hidle : e.busy = false) {o : Opened} (ho : e.scope.opened = some o)
      (hne : (Document.ofValue text).operations ≠ []) :
    Course sink text e s
      ({ e with busy := false, error := none, phase := .parsing }, s,
        .error (.transaction (.stillOpen o.label e.label)))
  | completed (hidle : e.busy = false) (hclosed : e.scope.isOpen = false)
      (hne : (Document.ofValue text).operations ≠ []) {m : Model}
      (h : runInTurn (Document.ofValue text).operations e.model = .ok m) :
    Course sink text e s
      (finish ⟨(Document.ofValue text).operations.length, (Document.ofValue text).operations.length,
          none, (Document.ofValue text).metadata⟩
        (sink (.success (Document.ofValue text).operations.length) (e.committed m) s))
  | refused (hidle : e.busy = false) (hclosed : e.scope.isOpen = false)
      {before after : List RawOperation} {op : RawOperation} {m : Model} {r : Refusal}
      (hops : (Document.ofValue text).operations = before ++ op :: after)
      (h : runInTurn before e.model = .ok m) (hr : op.step m = .error r) :
    Course sink text e s
      (finish ⟨before.length, (Document.ofValue text).operations.length, some r.report,
          (Document.ofValue text).metadata⟩
        (sink (.failure r.message) (e.rolledBack m r) s))

theorem course (text : Json) (e : Engine) : Course sink text e s (e.apply sink text s) := by
  cases hbusy : e.busy with
  | true =>
    rw [apply_of_busy sink s hbusy]
    exact .busy hbusy
  | false =>
    by_cases hne : (Document.ofValue text).operations = []
    · rw [apply_of_empty sink s hbusy hne]
      exact .empty hbusy hne
    · cases ho : e.scope.opened with
      | some o =>
        rw [apply_of_opened sink s hbusy ho hne]
        exact .opened hbusy ho hne
      | none =>
        have hclosed : e.scope.isOpen = false := by rw [Scope.isOpen, ho, Option.isSome_none]
        rcases runInTurn_ok_or_refused (Document.ofValue text).operations e.model with
          ⟨m, h⟩ | ⟨before, op, after, m, r, hops, h, hr⟩
        · rw [apply_of_completed sink s hbusy hclosed hne h]
          exact .completed hbusy hclosed hne h
        · rw [apply_of_refused sink s hbusy hclosed hops h hr]
          exact .refused hbusy hclosed hops h hr

/-- A patch that has operations is applied entirely or not at all, and what it leads to is what its
operations lead to in turn. The sink may do with the engine what it likes: `told` is the engine as
the sink finds it, and all that comes after the sink is the note of the outcome. -/
theorem apply_all_or_nothing (sink : Sink σ) (text : Json) (e : Engine) (s : σ)
    (hidle : e.busy = false) (hclosed : e.scope.isOpen = false)
    (hsink : ∀ report told s, (sink report told s).2.2 = none) :
    let d := Document.ofValue text
    (∃ o, (e.apply sink text s).2.2 = .ok o) ∧
    (d.operations = [] → ∃ after o,
      e.apply sink text s = (after, s, .ok o) ∧ o.error = some (emptyError d) ∧
      o.applied = 0 ∧ o.count = 0 ∧ after.model = e.model ∧ after.history = e.history) ∧
    (∀ m, d.operations ≠ [] → runInTurn d.operations e.model = .ok m → ∃ told o,
      (e.apply sink text s).2.2 = .ok o ∧
      (e.apply sink text s).1 =
        { (sink (.success d.operations.length) told s).1 with
          busy := false, lastOutcome := some o } ∧
      o.success = true ∧ o.applied = d.operations.length ∧ o.count = d.operations.length ∧
      told.model = m ∧ told.history.undone = [] ∧
      told.history.done =
        let done := ⟨e.label, e.model.loaded, m.loaded⟩ :: e.history.done
        if e.history.depth < done.length then done.dropLast else done) ∧
    (∀ before op after m r, d.operations = before ++ op :: after →
      runInTurn before e.model = .ok m → op.step m = .error r → ∃ told o,
      (e.apply sink text s).2.2 = .ok o ∧
      (e.apply sink text s).1 =
        { (sink (.failure r.message) told s).1 with busy := false, lastOutcome := some o } ∧
      o.error = some ⟨r.code, r.message⟩ ∧ o.applied = before.length ∧
      o.count = d.operations.length ∧ told.model.loaded = e.model.loaded ∧
      told.history.done = e.history.done ∧ told.history.undone = e.history.undone) := by
  intro d
  have hempty (h : d.operations = []) := apply_of_empty sink s hidle h
  have hfull (m : Model) (hne : d.operations ≠ []) (h : runInTurn d.operations e.model = .ok m) :=
    (apply_of_completed sink s hidle hclosed hne h).trans (finish_of_returned (hsink _ _ _))
  have hpart (before op after m r) (hops : d.operations = before ++ op :: after)
      (h : runInTurn before e.model = .ok m) (hr : op.step m = .error r) :=
    (apply_of_refused sink s hidle hclosed hops h hr).trans (finish_of_returned (hsink _ _ _))
  refine ⟨?_, ?_, ?_, ?_⟩
  · by_cases hne : d.operations = []
    · exact ⟨_, by rw [hempty hne]; rfl⟩
    · rcases runInTurn_ok_or_refused d.operations e.model with
        ⟨m, h⟩ | ⟨before, op, after, m, r, hops, h, hr⟩
      · exact ⟨_, by rw [hfull m hne h]⟩
      · exact ⟨_, by rw [hpart before op after m r hops h hr]⟩
  · intro h
    exact ⟨_, _, hempty h, rfl, rfl, rfl, rfl, rfl⟩
  · intro m hne h
    exact ⟨e.committed m, _, by rw [hfull m hne h], by rw [hfull m hne h], rfl, rfl, rfl, rfl, rfl,
      rfl⟩
  · intro before op after m r hops h hr
    exact ⟨e.rolledBack m r, _, by rw [hpart before op after m r hops h hr],
      by rw [hpart before op after m r hops h hr], rfl, rfl, rfl, rfl, rfl, rfl⟩

/-- A patch without operations is no success, although none of its operations fails. -/
theorem not_success_of_no_operations :
    ¬ ∀ (text : Json) (e : Engine) (m : Model), e.busy = false → e.scope.isOpen = false →
      runInTurn (Document.ofValue text).operations e.model = .ok m →
      ∃ o, (e.apply silentSink text ()).2.2 = .ok o ∧ o.success = true := by
  intro h
  have hread : (Document.ofValue (.str "\x7b\x7d")).operations = [] := by rfl
  obtain ⟨o, ho, hsuccess⟩ := h (.str "\x7b\x7d") (Engine.new Model.empty 50 "Apply AI Patch")
    Model.empty rfl rfl (by rw [hread]; rfl)
  rw [apply_of_empty silentSink () rfl hread] at ho
  obtain rfl := Except.ok.inj ho
  exact absurd hsuccess (by decide)

end Engine

/-- A blueprint with one variable and one node, which gets it. -/
def lampDraft : BlueprintDraft :=
  ⟨"Lamp", "/Game/Lamp", none, [⟨"Lit", "bool", "", false⟩],
    [⟨"EventGraph", .eventGraph,
      [⟨"N", some "G", .variableGet, some "Lit", .zero, .zero,
        [⟨some "P", "Lit", .output, "bool", "", []⟩]⟩]⟩], false, 0⟩

def lampEngine : Engine := Engine.new (Model.empty.load lampDraft) 50 "Apply AI Patch"

def deleteN (index : Nat) : RawOperation :=
  ⟨index, [("type", .str "node_delete"), ("blueprint", .str "Lamp"), ("node_id", .str "N")]⟩

def braced (s : String) : String := "\x7b" ++ s ++ "\x7d"

def deletionOfN : String :=
  braced "\"type\":\"node_delete\",\"blueprint\":\"Lamp\",\"node_id\":\"N\""

def deleteTwice : Json :=
  .str (braced ("\"operations\":[" ++ deletionOfN ++ "," ++ deletionOfN ++ "]"))

set_option maxRecDepth 4000 in
theorem ofValue_deleteTwice :
    Document.ofValue deleteTwice = ⟨[deleteN 0, deleteN 1], [], none⟩ := by
  rfl

/-- The second deletion fails, and the first is taken back with it. -/
theorem apply_all_or_nothing_deleteTwice :
    lampEngine.busy = false ∧ lampEngine.scope.isOpen = false ∧
    (∀ report told s, (silentSink report told s).2.2 = none) ∧
    ∃ o, (lampEngine.apply silentSink deleteTwice ()).2.2 = .ok o ∧
      o.error = some ⟨.nodeNotFound, "Node not found: N"⟩ ∧ o.applied = 1 ∧ o.count = 2 ∧
      (lampEngine.apply silentSink deleteTwice ()).1.model.loaded = lampEngine.model.loaded := by
  refine ⟨rfl, rfl, fun _ _ _ => rfl, ?_⟩
  have h := Engine.apply_all_or_nothing silentSink deleteTwice lampEngine () rfl rfl
    (fun _ _ _ => rfl)
  rw [ofValue_deleteTwice] at h
  obtain ⟨told, o, ho, he, herror, happlied, hcount, hloaded, -⟩ :=
    h.2.2.2 [deleteN 0] (deleteN 1) [] _ (.nodeNotFound "N") rfl rfl rfl
  exact ⟨o, ho, herror, happlied, hcount, by rw [he]; exact hloaded⟩

end BlueprintPatch

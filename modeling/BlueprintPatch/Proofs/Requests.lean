import BlueprintPatch.Proofs.Entries
import BlueprintPatch.Proofs.Step

/-! Requests to an engine, one after the other: patches, dry runs, undoing and redoing. Between two
requests the engine is at rest. A request commits a patch, takes one back, brings one back or leaves
the blueprints and the history as they are, and its response tells which. -/
namespace BlueprintPatch

inductive EngineRequest
  | apply (text : Json)
  | canApply (text : Json)
  | undo
  | redo

inductive EngineResponse
  | outcome (r : Except Crash Outcome)
  | verdict (v : Bool)
  | label (r : Except TransactionError (Option String))

/-- What a response tells of the request. -/
inductive Effect
  | committed
  | undone
  | redone
  | kept
deriving DecidableEq, Repr

/-- A patch has been committed if its outcome is a success; undoing and redoing have done something
if they return a label. -/
def EngineRequest.effect : EngineRequest → EngineResponse → Effect
  | .apply _, .outcome (.ok o) => if o.success then .committed else .kept
  | .undo, .label (.ok (some _)) => .undone
  | .redo, .label (.ok (some _)) => .redone
  | _, _ => .kept

theorem EngineRequest.effect_apply (text : Json) (y : EngineResponse) :
    (apply text).effect y = .committed ∨ (apply text).effect y = .kept := by
  match y with
  | .outcome (.ok o) => cases ho : o.success <;> simp [effect, ho]
  | .outcome (.error _) | .verdict _ | .label _ => exact .inr rfl

/-- Whoever is told of a patch returns, and leaves alone the model, the history and the transaction.
It may ask for patches and dry runs: while a patch is reported they are refused. -/
structure Discreet {σ : Type} (sink : Sink σ) : Prop where
  returns : ∀ report told s, (sink report told s).2.2 = none
  model : ∀ report told s, (sink report told s).1.model = told.model
  history : ∀ report told s, (sink report told s).1.history = told.history
  scope : ∀ report told s, (sink report told s).1.scope = told.scope

theorem discreet_silentSink : Discreet silentSink :=
  ⟨fun _ _ _ => rfl, fun _ _ _ => rfl, fun _ _ _ => rfl, fun _ _ _ => rfl⟩

/-- No call is running and no transaction is open. -/
structure Engine.AtRest (e : Engine) : Prop where
  idle : e.busy = false
  closed : e.scope.isOpen = false
  unlocked : e.history.locked = false

theorem Engine.atRest_new (m : Model) (depth : Int) (label : String) :
    (Engine.new m depth label).AtRest :=
  ⟨rfl, rfl, rfl⟩

/-- What becomes of the model and of the history. -/
inductive Change (e e' : Engine) : Effect → Prop
  | committed (ops : List RawOperation) : ops ≠ [] → runInTurn ops e.model = .ok e'.model →
      e'.history = e.history.record ⟨e.label, e.model.loaded, e'.model.loaded⟩ →
      Change e e' .committed
  | undone (x : Entry) (rest : List Entry) : e.history.done = x :: rest →
      e'.model = e.model.restore x.before →
      e'.history = { e.history with done := rest, undone := x :: e.history.undone } →
      Change e e' .undone
  | redone (x : Entry) (rest : List Entry) : e.history.undone = x :: rest →
      e'.model = e.model.restore x.after →
      e'.history = { e.history with done := x :: e.history.done, undone := rest } →
      Change e e' .redone
  | kept : e'.model.loaded = e.model.loaded → e.model.next ≤ e'.model.next →
      e'.history = e.history → Change e e' .kept

theorem Change.congr {e told e' : Engine} {x : Effect} (h : Change e told x)
    (hmodel : e'.model = told.model) (hhistory : e'.history = told.history) : Change e e' x := by
  cases h with
  | committed ops hne hrun hrecord =>
    exact .committed ops hne (hmodel ▸ hrun) (by rw [hhistory, hmodel, hrecord])
  | undone y rest hdone hback hleft =>
    exact .undone y rest hdone (hmodel.trans hback) (hhistory.trans hleft)
  | redone y rest hundone hback hleft =>
    exact .redone y rest hundone (hmodel.trans hback) (hhistory.trans hleft)
  | kept hloaded hnext hsame =>
    exact .kept (hmodel ▸ hloaded) (hmodel ▸ hnext) (hhistory.trans hsame)

theorem Engine.canApply_of_idle (e : Engine) (text : Json) (hidle : e.busy = false) :
    ∃ error, e.canApply text = (error.isNone, { e with error := error, phase := .idle }) := by
  simp only [canApply, hidle]
  exact ⟨_, rfl⟩

namespace EngineRequest

variable {σ : Type}

/-- The engine after the request, the state of the sink and the response. -/
def serve (sink : Sink σ) (e : Engine) (s : σ) : EngineRequest → Engine × σ × EngineResponse
  | apply text =>
    let (e, s, o) := e.apply sink text s
    (e, s, .outcome o)
  | canApply text =>
    let (v, e) := e.canApply text
    (e, s, .verdict v)
  | undo =>
    match e.undo with
    | .ok (label, e) => (e, s, .label (.ok label))
    | .error c => (e, s, .label (.error c))
  | redo =>
    match e.redo with
    | .ok (label, e) => (e, s, .label (.ok label))
    | .error c => (e, s, .label (.error c))

/-- The request finds an engine at rest, leaves it so, and does what its response tells. -/
structure Served (sink : Sink σ) (e : Engine) (s : σ) (r : EngineRequest) : Prop where
  atRest : (r.serve sink e s).1.AtRest
  change : Change e (r.serve sink e s).1 (r.effect (r.serve sink e s).2.2)

variable {sink : Sink σ} {e : Engine}

theorem served_told (hsink : Discreet sink) (s : σ) {text : Json} {told : Engine} {o : Outcome}
    {report : Report} (h : e.apply sink text s = Engine.finish o (sink report told s))
    (hclosed : told.scope.isOpen = false) (hunlocked : told.history.locked = false)
    (hchange : Change e told (if o.success then .committed else .kept)) :
    Served sink e s (.apply text) := by
  rw [Engine.finish_of_returned (hsink.returns report told s)] at h
  constructor
  · simp only [serve, h]
    exact ⟨rfl, (congrArg Scope.isOpen (hsink.scope report told s)).trans hclosed,
      (congrArg History.locked (hsink.history report told s)).trans hunlocked⟩
  · simp only [serve, h]
    exact hchange.congr (hsink.model report told s) (hsink.history report told s)

theorem served_apply (hsink : Discreet sink) (he : e.AtRest) (s : σ) (text : Json) :
    Served sink e s (.apply text) := by
  have hunlock : e.history.unlock = e.history := History.unlock_of_unlocked he.unlocked
  by_cases hne : (Document.ofValue text).operations = []
  · have h := Engine.apply_of_empty sink s he.idle hne
    constructor
    · simp only [serve, h]
      exact ⟨rfl, he.closed, he.unlocked⟩
    · simp only [serve, h]
      exact .kept rfl (Nat.le_refl _) rfl
  · rcases runInTurn_ok_or_refused (Document.ofValue text).operations e.model with
      ⟨m, hrun⟩ | ⟨before, op, after, m, r, hops, hrun, hr⟩
    · refine served_told hsink s (Engine.apply_of_completed sink s he.idle he.closed hne hrun)
        rfl rfl (.committed (Document.ofValue text).operations hne hrun ?_)
      rw [Engine.committed, hunlock]
      rfl
    · exact served_told hsink s (Engine.apply_of_refused sink s he.idle he.closed hops hrun hr)
        rfl rfl (.kept rfl (next_le_runInTurn hrun : e.model.next ≤ m.next) hunlock)

theorem served_canApply (sink : Sink σ) (he : e.AtRest) (s : σ) (text : Json) :
    Served sink e s (.canApply text) := by
  obtain ⟨error, h⟩ := e.canApply_of_idle text he.idle
  constructor
  · simp only [serve, h]
    exact ⟨he.idle, he.closed, he.unlocked⟩
  · simp only [serve, h]
    exact .kept rfl (Nat.le_refl _) rfl

theorem served_undo (sink : Sink σ) (he : e.AtRest) (s : σ) : Served sink e s .undo := by
  cases hdone : e.history.done with
  | nil =>
    have h := History.undo_nil e.model he.unlocked hdone
    constructor
    · simp only [serve, Engine.undo, h]
      exact ⟨he.idle, he.closed, he.unlocked⟩
    · simp only [serve, Engine.undo, h]
      exact .kept rfl (Nat.le_refl _) rfl
  | cons x rest =>
    have h := History.undo_cons e.model he.unlocked hdone
    constructor
    · simp only [serve, Engine.undo, h]
      exact ⟨he.idle, he.closed, he.unlocked⟩
    · simp only [serve, Engine.undo, h]
      exact .undone x rest hdone rfl rfl

theorem served_redo (sink : Sink σ) (he : e.AtRest) (s : σ) : Served sink e s .redo := by
  cases hundone : e.history.undone with
  | nil =>
    have h := History.redo_nil e.model he.unlocked hundone
    constructor
    · simp only [serve, Engine.redo, h]
      exact ⟨he.idle, he.closed, he.unlocked⟩
    · simp only [serve, Engine.redo, h]
      exact .kept rfl (Nat.le_refl _) rfl
  | cons x rest =>
    have h := History.redo_cons e.model he.unlocked hundone
    constructor
    · simp only [serve, Engine.redo, h]
      exact ⟨he.idle, he.closed, he.unlocked⟩
    · simp only [serve, Engine.redo, h]
      exact .redone x rest hundone rfl rfl

theorem served (hsink : Discreet sink) (he : e.AtRest) (s : σ) (r : EngineRequest) :
    Served sink e s r := by
  cases r with
  | apply text => exact served_apply hsink he s text
  | canApply text => exact served_canApply sink he s text
  | undo => exact served_undo sink he s
  | redo => exact served_redo sink he s

end EngineRequest

/-- The engine after all the requests, and the state of the sink. -/
def serveAll {σ : Type} (sink : Sink σ) : List EngineRequest → Engine → σ → Engine × σ
  | [], e, s => (e, s)
  | r :: rest, e, s =>
    let x := r.serve sink e s
    serveAll sink rest x.1 x.2.1

theorem serveAll_atRest {σ : Type} {sink : Sink σ} (hsink : Discreet sink)
    (calls : List EngineRequest) {e : Engine} (s : σ) (he : e.AtRest) :
    (serveAll sink calls e s).1.AtRest := by
  induction calls generalizing e s with
  | nil => exact he
  | cons r rest ih => exact ih _ (EngineRequest.served hsink he s r).atRest

/-- What holds of an engine at rest, and goes on to hold whatever becomes of the model and of the
history, holds after all requests. -/
theorem serveAll_induction {σ : Type} {sink : Sink σ} (hsink : Discreet sink) {P : Engine → Prop}
    (hstep : ∀ e e' x, P e → Change e e' x → P e') (calls : List EngineRequest) {e : Engine} (s : σ)
    (he : e.AtRest) (hP : P e) : P (serveAll sink calls e s).1 := by
  induction calls generalizing e s with
  | nil => exact hP
  | cons r rest ih =>
    have h := EngineRequest.served hsink he s r
    exact ih _ h.atRest (hstep _ _ _ hP h.change)

end BlueprintPatch

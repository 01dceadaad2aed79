import BlueprintPatch.Proofs.Resting

/-! A transaction that somebody has begun directly in the scope of an engine. Until it is ended the
engine takes no patch, since a patch would begin a transaction of its own, and a rollback finds the
state of the beginning. -/
namespace BlueprintPatch

namespace Engine

/-- What there is to work on is the same for both engines. -/
structure SameWork (e e' : Engine) : Prop where
  model : e'.model = e.model
  scope : e'.scope = e.scope
  history : e'.history = e.history
  busy : e'.busy = e.busy

theorem begin_eq_ok_iff {e begun : Engine} {label : String} :
    e.begin label = .ok begun ↔
      e.scope.isOpen = false ∧
      { e with scope := ⟨some ⟨label, e.model.snapshot⟩⟩, history := e.history.lock } = begun := by
  cases ho : e.scope.opened <;> simp [Engine.begin, Scope.begin, Scope.isOpen, ho, Except.map]

theorem opened_of_begin {e begun : Engine} {label : String} (h : e.begin label = .ok begun) :
    begun.scope.opened = some ⟨label, e.model.snapshot⟩ ∧ begun.busy = e.busy := by
  obtain ⟨-, rfl⟩ := begin_eq_ok_iff.mp h
  exact ⟨rfl, rfl⟩

theorem rollback_of_opened {e : Engine} {o : Opened} (ho : e.scope.opened = some o) :
    e.rollback = .ok { e with
      scope := .closed, history := e.history.unlock, model := e.model.restore o.before } := by
  simp [rollback, Scope.rollback, ho, Except.map]

variable {σ : Type} (sink : Sink σ)

/-- A patch that has operations is refused while a transaction is open that was begun directly: the
error names both transactions, the sink is not told, and the work and the last outcome are as they
were. The last error is cleared, as it is by every patch. A rollback still returns to the blueprints
of the beginning, whatever has become of the model since. -/
theorem refused_while_open {e begun now : Engine} {label : String}
    (hbegin : e.begin label = .ok begun) (hscope : now.scope = begun.scope)
    (hidle : now.busy = false) {text : Json} (hne : (Document.ofValue text).operations ≠ [])
    (s : σ) :
    let after := (now.apply sink text s).1
    (now.apply sink text s).2 = (s, .error (.transaction (.stillOpen label now.label))) ∧
    now.SameWork after ∧
    after.scope.isOpen = true ∧ after.scope.label? = some label ∧
    after.lastOutcome = now.lastOutcome ∧
    after.lastError = "" ∧ after.lastErrorCode = none ∧
    ∃ back, after.rollback = .ok back ∧
      back.model.loaded = e.model.loaded ∧ back.history = now.history.unlock ∧
      back.scope = .closed := by
  intro after
  have hopened : now.scope.opened = some ⟨label, e.model.snapshot⟩ :=
    hscope ▸ (opened_of_begin hbegin).1
  have happly := apply_of_opened sink s hidle hopened hne
  have hafter : after = { now with busy := false, error := none, phase := .parsing } :=
    congrArg Prod.fst happly
  rw [happly, hafter]
  refine ⟨rfl, ⟨rfl, rfl, rfl, hidle.symm⟩, ?_, ?_, rfl, rfl, rfl, _, rollback_of_opened hopened,
    rfl, rfl, rfl⟩
  · exact Option.isSome_iff_exists.mpr ⟨_, hopened⟩
  · exact congrArg (Option.map Opened.label) hopened

/-- The model is emptied after the beginning; the patch is refused, and the lamp comes back. -/
theorem refused_while_open_deleteTwice :
    ∃ begun, lampEngine.begin "Edit" = .ok begun ∧
      (Document.ofValue deleteTwice).operations ≠ [] ∧
      let now : Engine := { begun with model := Model.empty }
      now.busy = false ∧
      (now.apply silentSink deleteTwice ()).2.2 =
        .error (.transaction (.stillOpen "Edit" "Apply AI Patch")) ∧
      ∃ back, (now.apply silentSink deleteTwice ()).1.rollback = .ok back ∧
        back.model.loaded = lampEngine.model.loaded := by
  have hne : (Document.ofValue deleteTwice).operations ≠ [] := by simp [ofValue_deleteTwice]
  have hbegin : lampEngine.begin "Edit" = .ok _ := begin_eq_ok_iff.mpr ⟨rfl, rfl⟩
  refine ⟨_, hbegin, hne, ?_⟩
  intro now
  have hidle : now.busy = false := rfl
  obtain ⟨hraised, -, -, -, -, -, -, back, hback, hloaded, -⟩ :=
    refused_while_open silentSink hbegin (rfl : now.scope = _) hidle hne ()
  exact ⟨hidle, congrArg Prod.snd hraised, back, hback, hloaded⟩

/-- After a patch without operations a transaction is begun: the error of that patch is cleared by
the next one, although it is refused. -/
theorem error_cleared_while_open :
    ¬ ∀ (e begun : Engine) (label : String) (text : Json), e.busy = false →
      e.begin label = .ok begun → (Document.ofValue text).operations ≠ [] →
      (begun.apply silentSink text ()).1.lastError = begun.lastError := by
  intro h
  have hread : (Document.ofValue (.str "\x7b\x7d")).operations = [] := by rfl
  have hne : (Document.ofValue deleteTwice).operations ≠ [] := by simp [ofValue_deleteTwice]
  have hempty := apply_of_empty silentSink () (rfl : lampEngine.busy = false) hread
  obtain ⟨hidle, hclosed, herror⟩ :
      (lampEngine.apply silentSink (.str "\x7b\x7d") ()).1.busy = false ∧
      (lampEngine.apply silentSink (.str "\x7b\x7d") ()).1.scope.isOpen = false ∧
      (lampEngine.apply silentSink (.str "\x7b\x7d") ()).1.lastError ≠ "" := by
    rw [hempty]
    exact ⟨rfl, rfl, emptyError_message_ne_empty hread⟩
  have hbegin : Engine.begin "Edit" _ = .ok _ := begin_eq_ok_iff.mpr ⟨hclosed, rfl⟩
  obtain ⟨hopened, hbusy⟩ := opened_of_begin hbegin
  have hsame := h _ _ "Edit" deleteTwice hidle hbegin hne
  rw [apply_of_opened silentSink () (hbusy.trans hidle) hopened hne] at hsame
  exact herror hsame.symm

end Engine

end BlueprintPatch

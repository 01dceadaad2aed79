import BlueprintPatch.Proofs.Callbacks

/-! Engines that come to rest. Whatever a sink asks for while it is told of a patch, and whether it
returns or crashes, the engine is ready for the next call: nothing is running, nothing is open,
nothing is locked, and an error that is kept has a text and a code. -/
namespace BlueprintPatch

theorem append_ne_empty_left {a : String} (h : a ≠ "") (b : String) : a ++ b ≠ "" :=
  fun hempty => h (String.append_eq_empty_iff.mp hempty).1

theorem append_ne_empty_right (a : String) {b : String} (h : b ≠ "") : a ++ b ≠ "" :=
  fun hempty => h (String.append_eq_empty_iff.mp hempty).2

namespace Refusal

theorem message_ne_empty : (r : Refusal) → r.message ≠ ""
  | typeMissing | blueprintMissing => by decide
  | unknownType _ | blueprintNotFound _ | variableNotFound _ | variableExists _ | graphNotFound _
  | nodeNotFound _ | nodeTypeUnsupported _ | nodeTypeNotCreated _ =>
    append_ne_empty_left (by decide) _
  | notImplemented _ | fieldInvalid _ _ | memberMissing _ _ => append_ne_empty_right _ (by decide)

theorem code_ne_engineBusy (r : Refusal) : r.code ≠ .engineBusy := by
  cases r <;> simp [code]

end Refusal

theorem DocumentError.message_ne_empty : (x : DocumentError) → x.message ≠ ""
  | notText | notObject | noOperations => by decide
  | undecodable _ _ => append_ne_empty_left (by decide) _

theorem Document.exists_error {text : Json} (h : (Document.ofValue text).operations = []) :
    ∃ x, (Document.ofValue text).error = some x := by
  unfold ofValue at h ⊢
  split at h
  · unfold ofPoints at h ⊢
    split at h
    · exact ⟨_, rfl⟩
    · have hempty : rawOperations _ = [] := h
      exact ⟨.noOperations, by simp [ofFields, hempty]⟩
    · exact ⟨_, rfl⟩
  · exact ⟨_, rfl⟩

namespace Engine

theorem emptyError_message_ne_empty {text : Json}
    (h : (Document.ofValue text).operations = []) :
    (emptyError (Document.ofValue text)).message ≠ "" := by
  obtain ⟨x, hx⟩ := Document.exists_error h
  simpa [emptyError, hx] using x.message_ne_empty

/-- The text of the last error, empty if there is none. -/
def lastError (e : Engine) : String := (e.error.map (·.message)).getD ""

def lastErrorCode (e : Engine) : Option ErrorCode := e.error.map (·.code)

theorem lastError_eq_empty_iff_of_none {e : Engine} (h : e.error = none) :
    e.lastError = "" ↔ e.lastErrorCode = none := by
  simp [lastError, lastErrorCode, h]

theorem lastError_eq_empty_iff {e : Engine} (h : ∀ x, e.error = some x → x.message ≠ "") :
    e.lastError = "" ↔ e.lastErrorCode = none := by
  cases herror : e.error with
  | none => exact lastError_eq_empty_iff_of_none herror
  | some x => simp [lastError, lastErrorCode, herror, h x herror]

/-- No transaction is open, and what the engine tells of itself is in order. -/
structure Calm (e : Engine) : Prop where
  closed : e.scope.isOpen = false
  unlabelled : e.scope.label? = none
  unlocked : e.history.locked = false
  phase : e.phase = .idle ∨ e.phase = .committed ∨ e.phase = .rolledBack
  error : e.lastError = "" ↔ e.lastErrorCode = none

/-- The engine is calm and does not run a call. -/
structure Rests (e : Engine) : Prop extends Calm e where
  idle : e.busy = false

theorem rests_new (m : Model) (depth : Int) (label : String) : (Engine.new m depth label).Rests where
  closed := rfl
  unlabelled := rfl
  unlocked := rfl
  phase := .inl rfl
  error := lastError_eq_empty_iff_of_none rfl
  idle := rfl

/-- The engines are alike in all that makes an engine calm. -/
structure Alike (e e' : Engine) : Prop where
  scope : e'.scope = e.scope
  locked : e'.history.locked = e.history.locked
  phase : e'.phase = e.phase
  error : e'.error = e.error
  busy : e'.busy = e.busy

theorem Alike.refl (e : Engine) : e.Alike e := ⟨rfl, rfl, rfl, rfl, rfl⟩

theorem Alike.trans {e e' e'' : Engine} (h : e.Alike e') (h' : e'.Alike e'') : e.Alike e'' where
  scope := h'.scope.trans h.scope
  locked := h'.locked.trans h.locked
  phase := h'.phase.trans h.phase
  error := h'.error.trans h.error
  busy := h'.busy.trans h.busy

theorem Calm.of_alike {e e' : Engine} (h : e.Calm) (halike : e.Alike e') : e'.Calm where
  closed := halike.scope ▸ h.closed
  unlabelled := halike.scope ▸ h.unlabelled
  unlocked := halike.locked.trans h.unlocked
  phase := halike.phase ▸ h.phase
  error := by
    have herror := h.error
    rwa [lastError, lastErrorCode, ← halike.error] at herror

theorem Rests.of_alike {e e' : Engine} (h : e.Rests) (halike : e.Alike e') : e'.Rests where
  toCalm := h.toCalm.of_alike halike
  idle := halike.busy.trans h.idle

theorem alike_undo {e e' : Engine} {label : Option String} (h : e.undo = .ok (label, e')) :
    e.Alike e' := by
  cases hlocked : e.history.locked with
  | true => simp [undo, History.undo, hlocked, Except.map] at h
  | false =>
    cases hdone : e.history.done with
    | nil =>
      rw [undo, History.undo_nil e.model hlocked hdone] at h
      cases h
      exact ⟨rfl, rfl, rfl, rfl, rfl⟩
    | cons x rest =>
      rw [undo, History.undo_cons e.model hlocked hdone] at h
      cases h
      exact ⟨rfl, rfl, rfl, rfl, rfl⟩

theorem alike_redo {e e' : Engine} {label : Option String} (h : e.redo = .ok (label, e')) :
    e.Alike e' := by
  cases hlocked : e.history.locked with
  | true => simp [redo, History.redo, hlocked, Except.map] at h
  | false =>
    cases hundone : e.history.undone with
    | nil =>
      rw [redo, History.redo_nil e.model hlocked hundone] at h
      cases h
      exact ⟨rfl, rfl, rfl, rfl, rfl⟩
    | cons x rest =>
      rw [redo, History.redo_cons e.model hlocked hundone] at h
      cases h
      exact ⟨rfl, rfl, rfl, rfl, rfl⟩

end Engine

namespace EngineRequest

variable {σ : Type} (sink : Sink σ) (s : σ) (e : Engine)

theorem alike_undo : e.Alike (undo.serve sink e s).1 := by
  cases h : e.undo with
  | ok r => simpa only [serve, h] using Engine.alike_undo h
  | error c => simpa only [serve, h] using Engine.Alike.refl e

theorem alike_redo : e.Alike (redo.serve sink e s).1 := by
  cases h : e.redo with
  | ok r => simpa only [serve, h] using Engine.alike_redo h
  | error c => simpa only [serve, h] using Engine.Alike.refl e

/-- A busy engine refuses patches and dry runs, and undoing and redoing leave it as calm as it is. -/
theorem alike_of_busy {e : Engine} (hbusy : e.busy = true) (r : EngineRequest) :
    e.Alike (r.serve sink e s).1 := by
  cases r with
  | apply text => rw [(serve_of_busy sink s hbusy (r := .apply text) trivial).1]; exact .refl e
  | canApply text => rw [(serve_of_busy sink s hbusy (r := .canApply text) trivial).1]; exact .refl e
  | undo => exact alike_undo sink s e
  | redo => exact alike_redo sink s e

end EngineRequest

/-- The sink leaves an engine that is busy alike. -/
def Sparing {σ : Type} (sink : Sink σ) : Prop :=
  ∀ report (told : Engine) s, told.busy = true → told.Alike (sink report told s).1

theorem Conduct.alike_follow {σ τ : Type} (inner : Sink τ) (t : τ) (c : Conduct σ) {e : Engine}
    (hbusy : e.busy = true) (talk : Talk) : e.Alike (c.follow inner t e talk).1 := by
  induction c generalizing e talk with
  | leave s crash => exact .refl e
  | ask r next ih =>
    -- the engine is still busy after the request, so the next one meets it as this one did
    have hasked := EngineRequest.alike_of_busy inner t hbusy r
    exact hasked.trans (ih _ (hasked.busy.trans hbusy) _)

theorem Conduct.sparing_sink {σ τ : Type} (inner : Sink τ) (t : τ)
    (conduct : Report → σ → Conduct σ) : Sparing (Conduct.sink inner t conduct) :=
  fun report _ (s, talk) hbusy => (conduct report s).alike_follow inner t hbusy talk

theorem handler_of_crashed {handler : Handler} {ops : List RawOperation} {k : Nat} {m : Model}
    {c : Crash} (h : (runOperations handler ops k m).ending = .crashed c) :
    ∃ op before after, handler op before = .crashed after c := by
  induction ops generalizing k m with
  | nil => cases h
  | cons op rest ih =>
    unfold runOperations at h
    split at h
    · cases h
    · rename_i typed _
      split at h
      · cases h
      · rename_i after c' hcrashed
        cases h
        exact ⟨typed, m, after, hcrashed⟩
      · exact ih h

namespace Engine

variable {σ : Type}

/-- The outcome does not say that the engine is busy. -/
def TakenUp (o : Outcome) : Prop := ∀ x, o.error = some x → x.code ≠ .engineBusy

theorem takenUp_of_none {o : Outcome} (h : o.error = none) : TakenUp o := by
  simp [TakenUp, h]

/-- How a patch ends that is taken up: with an engine that is calm. The sink is told nothing of a
patch without operations, nor if the handler crashes. -/
inductive Ended (handler : Handler) (sink : Sink σ) (s : σ) : Engine × σ × Except Crash Outcome → Prop
  | empty {after : Engine} {o : Outcome} : after.Calm → TakenUp o →
      Ended handler sink s (finish o (after, s, none))
  | crashed {after : Engine} {op : Operation} {m m' : Model} {c : Crash} : after.Calm →
      handler op m = .crashed m' c → Ended handler sink s ({ after with busy := false }, s, .error c)
  | told {after : Engine} {o : Outcome} (report : Report) : after.Calm → after.busy = true →
      TakenUp o → Ended handler sink s (finish o (sink report after s))

theorem ended_applyWith {e : Engine} (he : e.Rests) (handler : Handler) (sink : Sink σ) (text : Json)
    (s : σ) : Ended handler sink s (e.applyWith handler sink text s) := by
  by_cases hne : (Document.ofValue text).operations = []
  · have hmessage := emptyError_message_ne_empty hne
    simp only [applyWith, he.idle, Document.isEmpty, hne]
    refine .empty ⟨he.closed, he.unlabelled, he.unlocked, .inr (.inr rfl), ?_⟩ ?_
    · exact lastError_eq_empty_iff fun x hx => Option.some.inj hx ▸ hmessage
    · exact fun x hx => Option.some.inj hx ▸ by simp [emptyError]
  simp only [applyWith, he.idle, Document.isEmpty, List.isEmpty_iff, hne, begin_of_closed he.closed]
  -- whichever way the run ends, its end closes the transaction that has been begun
  cases hrun : runOperations handler (Document.ofValue text).operations 0 e.begun.model with
  | mk m k ending =>
    cases ending with
    | completed =>
      rw [conclude_completed]
      exact .told (.success _)
        ⟨rfl, rfl, rfl, .inr (.inl rfl), lastError_eq_empty_iff_of_none rfl⟩ rfl (takenUp_of_none rfl)
    | refused r =>
      rw [conclude_refused]
      refine .told (.failure _) ⟨rfl, rfl, rfl, .inr (.inr rfl), ?_⟩ rfl ?_
      · exact lastError_eq_empty_iff fun x hx => Option.some.inj hx ▸ r.message_ne_empty
      · exact fun x hx => Option.some.inj hx ▸ r.code_ne_engineBusy
    | crashed c =>
      obtain ⟨op, before, after, hcrashed⟩ := handler_of_crashed (congrArg Run.ending hrun)
      exact .crashed ⟨rfl, rfl, rfl, .inr (.inr rfl), lastError_eq_empty_iff_of_none rfl⟩ hcrashed

theorem rests_finish {e : Engine} (h : e.Calm) (o : Outcome) (s : σ) (crash : Option Crash) :
    (finish o (e, s, crash)).1.Rests := by
  cases crash with
  | none => exact ⟨⟨h.closed, h.unlabelled, h.unlocked, h.phase, h.error⟩, rfl⟩
  | some c => exact ⟨⟨h.closed, h.unlabelled, h.unlocked, h.phase, h.error⟩, rfl⟩

theorem Ended.rests {handler : Handler} {sink : Sink σ} (hsink : Sparing sink) {s : σ}
    {r : Engine × σ × Except Crash Outcome} (h : Ended handler sink s r) : r.1.Rests := by
  cases h with
  | empty hcalm => exact rests_finish hcalm _ _ _
  | crashed hcalm => exact rests_finish hcalm ⟨0, 0, none, []⟩ s (some .index)
  | told report hcalm hbusy => exact rests_finish (hcalm.of_alike (hsink report _ s hbusy)) _ _ _

/-- A patch is accepted: it is not refused because the engine is busy, and what is raised is raised
by the sink. -/
def Accepts (sink : Sink σ) (text : Json) (e : Engine) (s : σ) : Prop :=
  match (e.apply sink text s).2.2 with
  | .ok o => TakenUp o
  | .error c => ∃ report told, (sink report told s).2.2 = some c

theorem not_crashed_handle (op : Operation) (m m' : Model) (c : Crash) :
    op.handle m ≠ .crashed m' c := by
  unfold Operation.handle
  split <;> exact nofun

theorem Rests.accepts {e : Engine} (he : e.Rests) (sink : Sink σ) (text : Json) (s : σ) :
    e.Accepts sink text s := by
  have hended : Ended Operation.handle sink s (e.apply sink text s) :=
    ended_applyWith he Operation.handle sink text s
  unfold Accepts
  generalize e.apply sink text s = x at hended
  cases hended with
  | empty _ htaken => exact htaken
  | crashed _ hcrashed => exact absurd hcrashed (not_crashed_handle _ _ _ _)
  | @told after o report _ _ htaken =>
    cases hsunk : sink report after s with
    | mk left rest =>
      obtain ⟨s', crash⟩ := rest
      cases crash with
      | none => exact htaken
      | some c => exact ⟨report, after, congrArg (·.2.2) hsunk⟩

theorem Rests.canApply {e : Engine} (he : e.Rests) (text : Json) : (e.canApply text).2.Rests := by
  by_cases hne : (Document.ofValue text).operations = []
  · simp only [Engine.canApply, he.idle, Document.isEmpty, hne]
    refine ⟨⟨he.closed, he.unlabelled, he.unlocked, .inl rfl, lastError_eq_empty_iff ?_⟩, rfl⟩
    exact fun x hx => Option.some.inj hx ▸ emptyError_message_ne_empty hne
  · simp only [Engine.canApply, he.idle, Document.isEmpty, List.isEmpty_iff, hne]
    refine ⟨⟨he.closed, he.unlabelled, he.unlocked, .inl rfl, lastError_eq_empty_iff ?_⟩, rfl⟩
    cases validateAll e.model (Document.ofValue text).operations with
    | ok _ =>
      intro x hx
      cases hx
    | error r => exact fun x hx => Option.some.inj hx ▸ r.message_ne_empty

end Engine

theorem EngineRequest.rests_serve {σ : Type} {sink : Sink σ} (hsink : Sparing sink) {e : Engine}
    (he : e.Rests) (s : σ) (r : EngineRequest) : (r.serve sink e s).1.Rests := by
  cases r with
  | apply text => exact (Engine.ended_applyWith he Operation.handle sink text s).rests hsink
  | canApply text => exact he.canApply text
  | undo => exact he.of_alike (alike_undo sink s e)
  | redo => exact he.of_alike (alike_redo sink s e)

theorem rests_serveAll {σ : Type} {sink : Sink σ} (hsink : Sparing sink)
    (calls : List EngineRequest) {e : Engine} (he : e.Rests) (s : σ) :
    (serveAll sink calls e s).1.Rests := by
  induction calls generalizing e s with
  | nil => exact he
  | cons r rest ih => exact ih (EngineRequest.rests_serve hsink he s r) _

/-- After any calls the engine is at rest and accepts the next patch, whatever the sink asks for
when it is told of a patch, and whether it returns or crashes. -/
theorem comes_to_rest {σ τ : Type} (inner : Sink τ) (t : τ) (conduct : Report → σ → Conduct σ)
    (calls : List EngineRequest) {e : Engine} (he : e.Rests) (s : σ × Talk) :
    let sink := Conduct.sink inner t conduct
    let after := serveAll sink calls e s
    after.1.Rests ∧ ∀ text, after.1.Accepts sink text after.2 := by
  intro sink after
  have hrests : after.1.Rests := rests_serveAll (Conduct.sparing_sink inner t conduct) calls he s
  exact ⟨hrests, fun text => hrests.accepts sink text after.2⟩

/-- Takes the patch back that it is told of, asks for another and crashes. -/
def undoAndCrash : Report → Unit → Conduct Unit := fun _ _ =>
  .ask .undo fun _ => .ask (.apply deleteTwice) fun _ => .leave () (some (.host "no"))

set_option maxRecDepth 4000 in
/-- The crash goes through to the caller of the patch, and the engine is at rest. -/
theorem comes_to_rest_undoAndCrash :
    let sink := Conduct.sink silentSink () undoAndCrash
    let after := serveAll sink [.apply (.str deletionOfN)] lampEngine ((), [])
    lampEngine.Rests ∧
    (lampEngine.apply sink (.str deletionOfN) ((), [])).2.2 = .error (.host "no") ∧
    after.1.Rests ∧ after.1.Accepts sink deleteTwice after.2 := by
  intro sink after
  have he : lampEngine.Rests := Engine.rests_new _ _ _
  obtain ⟨hrests, haccepts⟩ :=
    comes_to_rest silentSink () undoAndCrash [.apply (.str deletionOfN)] he ((), [])
  exact ⟨he, rfl, hrests, haccepts deleteTwice⟩

end BlueprintPatch

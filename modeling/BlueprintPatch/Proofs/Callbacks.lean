import BlueprintPatch.Proofs.Requests

/-! Sinks that call the engine back. While a patch is reported the engine is busy: it refuses every
patch and every dry run that is asked for, and the refusal leaves no trace. So a sink that asks for
nothing else might as well do nothing. -/
namespace BlueprintPatch

/-- What a sink does when it is told of a patch. It puts requests to the engine, each of which may
depend on the responses before it, and in the end it returns or crashes. -/
inductive Conduct (σ : Type)
  | leave (s : σ) (crash : Option Crash)
  | ask (r : EngineRequest) (next : EngineResponse → Conduct σ)

abbrev Talk := List (EngineRequest × EngineResponse)

namespace Conduct

variable {σ τ : Type} (inner : Sink τ) (t : τ)

/-- Acts upon the engine and notes what is said. The patches asked for would be reported to
`inner`. -/
def follow : Conduct σ → Engine → Talk → Engine × (σ × Talk) × Option Crash
  | leave s crash, e, talk => (e, (s, talk), crash)
  | ask r next, e, talk =>
    let x := r.serve inner e t
    (next x.2.2).follow x.1 (talk ++ [(r, x.2.2)])

/-- The sink that acts as it is described, and keeps what is said beside its state. -/
def sink (conduct : Report → σ → Conduct σ) : Sink (σ × Talk) :=
  fun report e (s, talk) => (conduct report s).follow inner t e talk

end Conduct

namespace EngineRequest

/-- The request is for a patch or for a dry run. -/
def IsForPatch : EngineRequest → Prop
  | apply _ => True
  | canApply _ => True
  | _ => False

/-- The response to a request for a patch says that the engine is busy; a dry run says no. -/
def IsRefused : EngineRequest × EngineResponse → Prop
  | (apply _, .outcome (.ok o)) => o.success = false ∧ o.error = some Engine.busyError
  | (canApply _, .verdict v) => v = false
  | _ => False

variable {τ : Type} (inner : Sink τ) (t : τ) {e : Engine}

theorem serve_of_busy (hbusy : e.busy = true) {r : EngineRequest} (hr : r.IsForPatch) :
    (r.serve inner e t).1 = e ∧ IsRefused (r, (r.serve inner e t).2.2) := by
  cases r with
  | apply text =>
    have h : e.apply inner text t = _ := Engine.apply_of_busy inner t hbusy
    constructor
    · simp only [serve, h]
    · simp only [serve, h]
      exact ⟨rfl, rfl⟩
  | canApply text =>
    have h : e.canApply text = (false, e) := by simp [Engine.canApply, hbusy]
    constructor
    · simp only [serve, h]
    · simp only [serve, h]
      exact rfl
  | undo => exact hr.elim
  | redo => exact hr.elim

end EngineRequest

namespace Conduct

variable {σ τ : Type} (inner : Sink τ) (t : τ)

/-- Nothing but patches and dry runs is asked for, and there is no crash. -/
def OnlyPatches : Conduct σ → Prop
  | leave _ crash => crash = none
  | ask r next => r.IsForPatch ∧ ∀ y, (next y).OnlyPatches

theorem follow_of_busy {e : Engine} (hbusy : e.busy = true) {c : Conduct σ} (hc : c.OnlyPatches)
    (talk : Talk) :
    (c.follow inner t e talk).1 = e ∧ (c.follow inner t e talk).2.2 = none ∧
      ∀ x ∈ (c.follow inner t e talk).2.1.2, x ∈ talk ∨ EngineRequest.IsRefused x := by
  induction c generalizing talk with
  | leave s crash => exact ⟨rfl, hc, fun _ hx => .inl hx⟩
  | ask r next ih =>
    obtain ⟨hr, hnext⟩ := hc
    obtain ⟨hkept, hrefused⟩ := EngineRequest.serve_of_busy inner t hbusy hr
    simp only [follow, hkept]
    obtain ⟨hsame, hreturns, htalk⟩ := ih _ (hnext _) (talk ++ [(r, (r.serve inner e t).2.2)])
    refine ⟨hsame, hreturns, fun x hx => ?_⟩
    rcases htalk x hx with hx | hx
    · rcases List.mem_append.mp hx with hx | hx
      · exact .inl hx
      · obtain rfl := List.mem_singleton.mp hx
        exact .inr hrefused
    · exact .inr hx

end Conduct

/-- A patch is either not reported at all, or once, by a busy engine that the sink has had no part
in. -/
theorem Engine.apply_untold_or_told (text : Json) (e : Engine) :
    (∃ after r, ∀ {σ : Type} (sink : Sink σ) (s : σ), e.apply sink text s = (after, s, r)) ∨
    ∃ told o report, told.busy = true ∧
      ∀ {σ : Type} (sink : Sink σ) (s : σ), e.apply sink text s = finish o (sink report told s) := by
  by_cases hbusy : e.busy = true
  · exact .inl ⟨_, _, fun sink s => apply_of_busy sink s hbusy⟩
  have hidle : e.busy = false := by simpa using hbusy
  by_cases hne : (Document.ofValue text).operations = []
  · exact .inl ⟨_, _, fun sink s => apply_of_empty sink s hidle hne⟩
  by_cases hopen : e.scope.isOpen = true
  · obtain ⟨x, hx⟩ := Option.isSome_iff_exists.mp hopen
    exact .inl ⟨_, _, fun sink s => apply_of_opened sink s hidle hx hne⟩
  have hclosed : e.scope.isOpen = false := by simpa using hopen
  rcases runInTurn_ok_or_refused (Document.ofValue text).operations e.model with
    ⟨m, hrun⟩ | ⟨before, op, after, m, r, hops, hrun, hr⟩
  · exact .inr ⟨e.committed m, _, _, rfl, fun sink s =>
      apply_of_completed sink s hidle hclosed hne hrun⟩
  · exact .inr ⟨e.rolledBack m r, _, _, rfl, fun sink s =>
      apply_of_refused sink s hidle hclosed hops hrun hr⟩

/-- Patches and dry runs that a sink asks for are refused, whatever sink they would be reported to,
and they have no effect: the engine and the outcome are those of a patch with a sink that does
nothing. -/
theorem reentrant_calls_refused {σ τ : Type} (inner : Sink τ) (t : τ)
    {conduct : Report → σ → Conduct σ} (hconduct : ∀ report s, (conduct report s).OnlyPatches)
    (text : Json) (e : Engine) (s : σ) :
    let told := e.apply (Conduct.sink inner t conduct) text (s, [])
    let untold := e.apply silentSink text ()
    (∀ x ∈ told.2.1.2, EngineRequest.IsRefused x) ∧ told.1 = untold.1 ∧ told.2.2 = untold.2.2 := by
  intro told untold
  rcases e.apply_untold_or_told text with ⟨after, r, h⟩ | ⟨busy, o, report, hbusy, h⟩
  · have htold : told = (after, (s, []), r) := h (Conduct.sink inner t conduct) (s, [])
    have huntold : untold = (after, (), r) := h silentSink ()
    rw [htold, huntold]
    exact ⟨by simp, rfl, rfl⟩
  · obtain ⟨hsame, hreturns, htalk⟩ :=
      Conduct.follow_of_busy inner t hbusy (hconduct report s) []
    have htold : told = Engine.finish o ((conduct report s).follow inner t busy []) :=
      h (Conduct.sink inner t conduct) (s, [])
    have huntold : untold = Engine.finish o (busy, (), none) := h silentSink ()
    rw [Engine.finish_of_returned hreturns, hsame] at htold
    rw [htold, huntold]
    exact ⟨fun x hx => (htalk x hx).resolve_left (by simp), rfl, rfl⟩

def askTwice : Report → Unit → Conduct Unit := fun _ _ =>
  .ask (.apply deleteTwice) fun _ => .ask (.canApply deleteTwice) fun _ => .leave () none

set_option maxRecDepth 4000 in
/-- The node of the lamp is deleted, and what is asked for meanwhile is refused. -/
theorem reentrant_calls_refused_askTwice :
    let told := lampEngine.apply (Conduct.sink silentSink () askTwice) (.str deletionOfN) ((), [])
    (∀ report s, (askTwice report s).OnlyPatches) ∧
    told.2.1.2.map Prod.fst = [.apply deleteTwice, .canApply deleteTwice] ∧
    (∀ x ∈ told.2.1.2, EngineRequest.IsRefused x) ∧
    told.1 = (lampEngine.apply silentSink (.str deletionOfN) ()).1 ∧
    ∃ o, told.2.2 = .ok o ∧ o.success = true := by
  intro told
  have honly : ∀ report s, (askTwice report s).OnlyPatches :=
    fun _ _ => ⟨trivial, fun _ => ⟨trivial, fun _ => rfl⟩⟩
  obtain ⟨hrefused, hengine, -⟩ :=
    reentrant_calls_refused silentSink () honly (.str deletionOfN) lampEngine ()
  exact ⟨honly, rfl, hrefused, hengine, _, rfl, rfl⟩

end BlueprintPatch

import BlueprintPatch.Proofs.DryRun
import BlueprintPatch.Proofs.Handlers
import BlueprintPatch.Proofs.Rollback
import BlueprintPatch.Session.Patching

/-! Validation and application agree. They check in different orders and look up in different
places, but an operation that is valid is carried out, and one that is refused when it is carried
out was not valid. So a dry run foretells what becomes of a patch with one operation. -/
namespace BlueprintPatch

namespace Operation

variable {typed : Operation} {m : Model}

theorem handle_eq_done_iff {m' : Model} {summary : String} :
    typed.handle m = .done m' summary ↔ typed.apply m = .ok (m', summary) := by
  unfold Operation.handle
  cases typed.apply m <;> simp [Prod.ext_iff]

theorem handle_eq_refused_iff {r : Refusal} :
    typed.handle m = .refused r ↔ typed.apply m = .error r := by
  unfold Operation.handle
  cases typed.apply m <;> simp

end Operation

namespace RawOperation

variable {op : RawOperation} {typed : Operation} {m : Model}

theorem typed?_of_build {kind : OperationKind} (hkind : op.kind? = some kind)
    (himpl : kind.isImplemented = true) (hid : op.blueprint?.isSome)
    (hbuild : op.build = .ok typed) : op.typed? = some typed := by
  obtain ⟨id, hid⟩ := Option.isSome_iff_exists.mp hid
  obtain ⟨type, htype, -⟩ := Option.bind_eq_some_iff.mp hkind
  have hchecked : (Operation.check kind op.fields).about kind.record = .ok typed := by
    simp only [build, hkind] at hbuild
    split at hbuild
    · next t ht => rw [ht, Except.ok.inj hbuild]
    · contradiction
  exact typed?_of_check htype hid hkind himpl (Checked.about_eq_ok.mp hchecked)

theorem validate_ok_iff_done (htyped : op.typed? = some typed) :
    (∃ t, op.validate m = .ok t) ↔ ∃ m' summary, typed.handle m = .done m' summary := by
  constructor
  · rintro ⟨t, ht⟩
    obtain ⟨htyped', b, hb, hvalid⟩ := validate_eq_ok_iff.mp ht
    obtain rfl := Option.some.inj (htyped.symm.trans htyped')
    obtain ⟨⟨c, k⟩, hchange⟩ :=
      Option.isSome_iff_exists.mp ((Operation.validate_eq_ok_iff m.next).mp hvalid)
    obtain ⟨summary, happly⟩ := Operation.apply_ok_iff_leads.mpr ⟨b, c, k, hb, hchange, rfl⟩
    exact ⟨_, summary, Operation.handle_eq_done_iff.mpr happly⟩
  · rintro ⟨m', summary, hdone⟩
    obtain ⟨b, c, k, hleads⟩ :=
      Operation.apply_ok_iff_leads.mp ⟨summary, Operation.handle_eq_done_iff.mp hdone⟩
    have hvalid : typed.validate b = .ok () :=
      (Operation.validate_eq_ok_iff m.next).mpr (by rw [hleads.changed]; rfl)
    exact ⟨typed, validate_eq_ok_iff.mpr ⟨htyped, b, hleads.resolved, hvalid⟩⟩

theorem step_eq_error_iff {r : Refusal} : op.step m = .error r ↔ op.validate m = .error r := by
  cases hv : op.validate m with
  | error r' => simp [step, hv]
  | ok typed =>
    obtain ⟨m', summary, hdone⟩ :=
      (validate_ok_iff_done (validate_eq_ok_iff.mp hv).1).mp ⟨typed, hv⟩
    simp [step, hv, Operation.handle_eq_done_iff.mp hdone, Except.map]

end RawOperation

namespace Session

variable {α β : Type} {s s' : Session}

theorem Action.run_bind {x : Action α} {f : α → Action β} {a : α} (h : x.run s = (.ok a, s')) :
    (x >>= f).run s = (f a).run s' := by
  simp only [run, ExceptT.run, StateT.run] at h
  simp only [run, ExceptT.run, StateT.run, bind, ExceptT.bind, ExceptT.mk, StateT.bind, h]
  rfl

theorem handle_of_refused {op : RawOperation} {typed : Operation} {r : Refusal}
    (hbuild : op.build = .ok typed) (hr : typed.apply s.engine.model = .error r) :
    (Action.handle (.obj op.fields)).run s = (.ok (.verdict (.error r)), s) := by
  have hvalue : Operation.ofValue (.obj op.fields) = .ok typed := hbuild
  have hread : (Action.ofExcept Failure.build (.ok typed)).run s = (.ok typed, s) := rfl
  have hmodel : Action.model.run s = (.ok s.engine.model, s) := rfl
  rw [Action.handle, hvalue, Action.run_bind hread, Action.run_bind hmodel, hr]
  rfl

end Session

namespace Engine

variable {σ : Type} {sink : Sink σ} {text : Json} {e : Engine} {op : RawOperation}

theorem verdict_of_single (hsink : ∀ report told s, (sink report told s).2.2 = none) (s : σ)
    (hclosed : e.scope.isOpen = false) (hop : (Document.ofValue text).operations = [op]) :
    ∃ o, (e.apply sink text s).2.2 = .ok o ∧ o.success = (e.canApply text).1 ∧
      (e.busy = false → o.error = (e.canApply text).2.error) := by
  cases hbusy : e.busy with
  | true =>
    have hdry : e.canApply text = (false, e) := by simp [canApply, hbusy]
    rw [apply_of_busy sink s hbusy, hdry]
    exact ⟨_, rfl, rfl, fun h => absurd h (by simp)⟩
  | false =>
    have hne : (Document.ofValue text).operations ≠ [] := by simp [hop]
    have hverdict : (e.canApply text).1 = (e.canApply text).2.error.isNone := by
      simp [canApply, hbusy]
    rw [hverdict]
    cases hv : op.validate e.model with
    | ok typed =>
      have hdry : (e.canApply text).2.error = none := by
        simp [canApply, hbusy, Document.isEmpty, hop, validateAll, hv]
      cases hstep : op.step e.model with
      | error r => exact absurd (hv.symm.trans (RawOperation.step_eq_error_iff.mp hstep)) (by simp)
      | ok m =>
        have hrun : runInTurn (Document.ofValue text).operations e.model = .ok m := by
          rw [hop]
          exact runInTurn_cons_eq_ok_iff.mpr ⟨m, hstep, rfl⟩
        rw [apply_of_completed sink s hbusy hclosed hne hrun, finish_of_returned (hsink _ _ _),
          hdry]
        exact ⟨_, rfl, rfl, fun _ => rfl⟩
    | error r =>
      have hdry : (e.canApply text).2.error = some r.report := by
        simp [canApply, hbusy, Document.isEmpty, hop, validateAll, hv]
      have hstep : op.step e.model = .error r := RawOperation.step_eq_error_iff.mpr hv
      have hops : (Document.ofValue text).operations = [] ++ op :: [] := hop
      rw [apply_of_refused sink s hbusy hclosed hops rfl hstep, finish_of_returned (hsink _ _ _),
        hdry]
      exact ⟨_, rfl, rfl, fun _ => rfl⟩

end Engine

/-- An operation with a record is valid exactly if it can be carried out. Carrying it out never
crashes, and one that is refused has changed nothing, in a session as on a heap, where its target is
looked up among all objects. So the dry run and the patch agree on a patch with one operation. -/
theorem validation_agrees :
    (∀ (m : Model) (op : RawOperation) (kind : OperationKind) (typed : Operation),
      op.kind? = some kind → kind.isImplemented = true → op.blueprint?.isSome →
      op.build = .ok typed →
      ((∃ t, op.validate m = .ok t) ↔ ∃ m' summary, typed.handle m = .done m' summary) ∧
      (∀ m' c, typed.handle m ≠ .crashed m' c) ∧
      (∀ (r : Refusal) (s : Session), s.engine.model = m → typed.handle m = .refused r →
        (Session.Action.handle (.obj op.fields)).run s = (.ok (.verdict (.error r)), s)) ∧
      ∀ h : Heap, h.loaded = m.loaded →
        (∀ r, typed.handle m = .refused r → typed.onHeap h = (h, .refused r.report)) ∧
        ∀ m' summary, typed.handle m = .done m' summary →
          ∃ h' text, typed.onHeap h = (h', .done text)) ∧
    ∀ {σ : Type} (sink : Sink σ) (text : Json) (e : Engine) (s : σ) (op : RawOperation),
      (∀ report told s, (sink report told s).2.2 = none) → e.scope.isOpen = false →
      (Document.ofValue text).operations = [op] →
      ∃ o, (e.apply sink text s).2.2 = .ok o ∧ o.success = (e.canApply text).1 ∧
        (e.busy = false → o.error = (e.canApply text).2.error) := by
  constructor
  · intro m op kind typed hkind himpl hid hbuild
    have htyped := RawOperation.typed?_of_build hkind himpl hid hbuild
    refine ⟨RawOperation.validate_ok_iff_done htyped, ?_, ?_, ?_⟩
    · intro m' c hcrash
      unfold Operation.handle at hcrash
      split at hcrash <;> contradiction
    · rintro r s rfl hr
      exact Session.handle_of_refused hbuild (Operation.handle_eq_refused_iff.mp hr)
    · intro h hm
      have hagrees := typed.onHeap_agrees hm
      constructor
      · intro r hr
        rwa [Operation.handle_eq_refused_iff.mp hr] at hagrees
      · intro m' summary hdone
        rwa [Operation.handle_eq_done_iff.mp hdone] at hagrees
  · intro σ sink text e s op hsink hclosed hop
    exact Engine.verdict_of_single hsink s hclosed hop

set_option maxRecDepth 4000 in
/-- The node of the lamp is deleted, in the model and on the heap, and a node that is not there is
refused by the dry run and by the patch. -/
theorem validation_agrees_lamp :
    (deleteN 0).kind? = some .nodeDelete ∧ (deleteN 0).blueprint?.isSome ∧
    lampHeap.loaded = lampEngine.model.loaded ∧
    (∃ typed, (deleteN 0).build = .ok typed ∧
      (∃ m summary, typed.handle lampEngine.model = .done m summary) ∧
      ∃ h text, typed.onHeap lampHeap = (h, .done text)) ∧
    ∃ o, (lampEngine.apply silentSink (.str deletionOfN) ()).2.2 = .ok o ∧
      o.success = (lampEngine.canApply (.str deletionOfN)).1 := by
  obtain ⟨hsingle, hpatch⟩ := validation_agrees
  obtain ⟨hiff, -, -, hheap⟩ := hsingle lampEngine.model (deleteN 0) .nodeDelete _ rfl rfl rfl rfl
  obtain ⟨m, summary, hdone⟩ := hiff.mp ⟨_, rfl⟩
  have hloaded : lampHeap.loaded = lampEngine.model.loaded := by rfl
  obtain ⟨o, ho, hsuccess, -⟩ := hpatch silentSink (.str deletionOfN) lampEngine () (deleteN 0)
    (fun _ _ _ => rfl) rfl rfl
  have honHeap := (hheap lampHeap hloaded).2 m summary hdone
  exact ⟨rfl, rfl, hloaded, ⟨_, rfl, ⟨m, summary, hdone⟩, honHeap⟩, o, ho, hsuccess⟩

end BlueprintPatch

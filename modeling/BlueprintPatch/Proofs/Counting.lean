import BlueprintPatch.Proofs.DryRun
import BlueprintPatch.Proofs.Loading
import BlueprintPatch.Proofs.Reachable
import Mathlib.Algebra.BigOperators.Group.Finset.Basic
import Mathlib.Algebra.BigOperators.Ring.Finset

/-! What a patch touches, and how it counts. An operation changes one blueprint and counts one
change there; so the counts tell how many operations have named each blueprint, and which blueprints
are as they were. -/
namespace BlueprintPatch

theorem Model.Coherent.step {op : Operation} {m m' : Model} {b c : Blueprint} {k : Nat}
    (hm : m.Coherent) (h : op.Leads m m' b c k) : m'.Coherent := by
  rw [h.result]
  exact coherent_draw k (coherent_update c hm)

theorem Model.Coherent.runInTurn {ops : List RawOperation} {m m' : Model} (hm : m.Coherent)
    (h : runInTurn ops m = .ok m') : m'.Coherent :=
  runInTurn_induction (fun hm hleads => hm.step hleads) hm h

def Model.target? (op : RawOperation) (m : Model) : Option Handle :=
  (op.target? m).map (·.handle)

/-- How many of the operations name the blueprint. -/
def Model.named (ops : List RawOperation) (h : Handle) (m : Model) : Nat :=
  ops.countP fun op => m.target? op = some h

theorem Model.target?_update {m : Model} (hm : m.Coherent) {b c : Blueprint} (hb : b ∈ m.loaded)
    (h : SameIdentity b c) (k : Nat) (op : RawOperation) :
    ((m.update c).draw k).target? op = m.target? op := by
  unfold target? RawOperation.target?
  cases (op.fields.get? "blueprint").bind Json.text? with
  | none => rfl
  | some id =>
    simp only [Option.bind_some, resolve?_draw, resolve?_update hm hb h, Option.map_map]
    congr 1
    funext x
    exact handle_supplant c x

theorem Model.target?_of_leads {op : RawOperation} {typed : Operation} {m m' : Model}
    {b c : Blueprint} {k : Nat} (htyped : op.typed? = some typed) (h : typed.Leads m m' b c k) :
    m.target? op = some b.handle := by
  obtain ⟨_, _, -, -, -, -, hcheck⟩ := RawOperation.typed?_eq_some htyped
  rw [target?, RawOperation.target?_of_check hcheck, h.resolved, Option.map_some]

theorem Model.target?_mem {op : RawOperation} {m : Model} {h : Handle}
    (ht : m.target? op = some h) : h ∈ registryOf m.loaded := by
  obtain ⟨b, hb, rfl⟩ := Option.map_eq_some_iff.mp ht
  obtain ⟨id, -, hid⟩ := Option.bind_eq_some_iff.mp hb
  exact List.mem_map_of_mem (mem_of_resolve? hid)

/-- The blueprint `c` is what `k` operations have made of `b`. -/
structure Touched (k : Nat) (b c : Blueprint) : Prop where
  same : Model.SameIdentity b c
  count : c.modificationCount = b.modificationCount + k
  kept : k = 0 → c = b

namespace Touched

variable {j k : Nat} {b c d : Blueprint}

theorem refl (b : Blueprint) : Touched 0 b b := ⟨⟨rfl, rfl, rfl⟩, by simp, fun _ => rfl⟩

theorem trans (h : Touched j b c) (h' : Touched k c d) : Touched (j + k) b d where
  same := ⟨h'.same.handle.trans h.same.handle, h'.same.name.trans h.same.name,
    h'.same.path.trans h.same.path⟩
  count := by
    rw [h'.count, h.count, Int.natCast_add, Int.add_assoc]
  kept := by
    intro he
    rw [h'.kept (by omega), h.kept (by omega)]

end Touched

theorem touched_of_change {op : Operation} {n k : Nat} {b c : Blueprint}
    (h : op.change n b = some (c, k)) : Touched 1 b c where
  same := Operation.sameIdentity_of_change h
  count := by
    rcases Operation.change_cases h with
      ⟨r, -, -, rfl, -⟩ | ⟨a, t, -, -, -, rfl, -⟩ | ⟨d, left, -, hleft, rfl, -⟩
    · rfl
    · rfl
    · obtain ⟨r, -, rfl⟩ := Option.map_eq_some_iff.mp hleft
      rfl
  kept := by
    intro he
    cases he

/-- Each blueprint keeps its place, and so many operations as `count` says have changed it. -/
def TouchedBy (count : Handle → Nat) (m m' : Model) : Prop :=
  m'.loaded.length = m.loaded.length ∧
    ∀ (i : Nat) (b : Blueprint), m.loaded[i]? = some b →
      ∃ c : Blueprint, m'.loaded[i]? = some c ∧ Touched (count b.handle) b c

theorem TouchedBy.trans {f g : Handle → Nat} {m₁ m₂ m₃ : Model} (h : TouchedBy f m₁ m₂)
    (h' : TouchedBy g m₂ m₃) : TouchedBy (fun x => f x + g x) m₁ m₃ := by
  refine ⟨h'.1.trans h.1, fun i b hb => ?_⟩
  obtain ⟨c, hc, hbc⟩ := h.2 i b hb
  obtain ⟨d, hd, hcd⟩ := h'.2 i c hc
  rw [hbc.same.handle] at hcd
  exact ⟨d, hd, hbc.trans hcd⟩

theorem touchedBy_of_leads {op : Operation} {m m' : Model} {b c : Blueprint} {k : Nat}
    (hm : m.Coherent) (h : op.Leads m m' b c k) :
    TouchedBy (fun x => if b.handle = x then 1 else 0) m m' := by
  have hb := Model.mem_of_resolve? h.resolved
  have hbc := touched_of_change h.changed
  have hloaded : m'.loaded = m.loaded.map (Model.supplant c) := by
    rw [h.result, Model.loaded_draw, Model.loaded_update]
  refine ⟨by rw [hloaded, List.length_map], fun i x hx => ?_⟩
  refine ⟨Model.supplant c x, by rw [hloaded, List.getElem?_map, hx, Option.map_some], ?_⟩
  by_cases he : x.handle = b.handle
  · obtain rfl := hm x (List.mem_of_getElem? hx) b hb he
    rw [Model.supplant_of_eq hbc.same.handle.symm]
    simpa using hbc
  · rw [Model.supplant_of_ne fun hc => he (hc.trans hbc.same.handle)]
    simpa [Ne.symm he] using Touched.refl x

theorem touchedBy_runInTurn {ops : List RawOperation} {m m' : Model} (hm : m.Coherent)
    (h : runInTurn ops m = .ok m') : TouchedBy (fun x => m.named ops x) m m' := by
  induction ops generalizing m with
  | nil =>
    obtain rfl := Except.ok.inj h
    exact ⟨rfl, fun i b hb => ⟨b, hb, .refl b⟩⟩
  | cons op ops ih =>
    obtain ⟨next, hstep, hrest⟩ := runInTurn_cons_eq_ok_iff.mp h
    obtain ⟨typed, b, c, k, htyped, hleads⟩ := RawOperation.step_eq_ok_iff.mp hstep
    have hfirst := touchedBy_of_leads hm hleads
    have hb := Model.mem_of_resolve? hleads.resolved
    have hbc := Operation.sameIdentity_of_change hleads.changed
    have hlater (x : Handle) : next.named ops x = m.named ops x := by
      simp only [Model.named, hleads.result, Model.target?_update hm hb hbc]
    have hnamed (x : Handle) : m.named (op :: ops) x =
        (if b.handle = x then 1 else 0) + next.named ops x := by
      rw [hlater, Model.named, List.countP_cons, Model.target?_of_leads htyped hleads, Nat.add_comm]
      simp [Model.named]
    simp only [hnamed]
    exact hfirst.trans (ih (hm.step hleads) hrest)

theorem exists_target?_of_runInTurn {ops : List RawOperation} {m m' : Model} (hm : m.Coherent)
    (h : runInTurn ops m = .ok m') : ∀ op ∈ ops, ∃ x, m.target? op = some x := by
  induction ops generalizing m with
  | nil => simp
  | cons op ops ih =>
    obtain ⟨next, hstep, hrest⟩ := runInTurn_cons_eq_ok_iff.mp h
    obtain ⟨typed, b, c, k, htyped, hleads⟩ := RawOperation.step_eq_ok_iff.mp hstep
    have hb := Model.mem_of_resolve? hleads.resolved
    have hbc := Operation.sameIdentity_of_change hleads.changed
    intro op' hop'
    rcases List.mem_cons.mp hop' with rfl | hop'
    · exact ⟨b.handle, Model.target?_of_leads htyped hleads⟩
    · obtain ⟨x, hx⟩ := ih (hm.step hleads) hrest op' hop'
      rw [hleads.result, Model.target?_update hm hb hbc] at hx
      exact ⟨x, hx⟩

theorem sum_named {ops : List RawOperation} {m : Model} {s : Finset Handle}
    (h : ∀ op ∈ ops, ∃ x ∈ s, m.target? op = some x) :
    ∑ x ∈ s, m.named ops x = ops.length := by
  induction ops with
  | nil => simp [Model.named]
  | cons op ops ih =>
    obtain ⟨y, hy, htarget⟩ := h op (by simp)
    have hcons (x : Handle) :
        m.named (op :: ops) x = m.named ops x + if y = x then 1 else 0 := by
      simp [Model.named, List.countP_cons, htarget]
    simp only [hcons, Finset.sum_add_distrib, ih fun op hop => h op (by simp [hop]),
      Finset.sum_ite_eq, hy, if_true, List.length_cons]

/-- The blueprints as they were with what has become of them, each object once. -/
def Model.changes (m m' : Model) : Finset (Blueprint × Blueprint) :=
  (m.loaded.zip m'.loaded).toFinset

theorem TouchedBy.of_mem_changes {f : Handle → Nat} {m m' : Model} (h : TouchedBy f m m')
    {p : Blueprint × Blueprint} (hp : p ∈ m.changes m') :
    p.1 ∈ m.loaded ∧ p.2 ∈ m'.loaded ∧ Touched (f p.1.handle) p.1 p.2 := by
  obtain ⟨i, hi⟩ := List.mem_iff_getElem?.mp (List.mem_toFinset.mp hp)
  obtain ⟨hb, hc⟩ := List.getElem?_zip_eq_some.mp hi
  obtain ⟨c, hc', htouched⟩ := h.2 i p.1 hb
  obtain rfl := Option.some.inj (hc.symm.trans hc')
  exact ⟨List.mem_of_getElem? hb, List.mem_of_getElem? hc, htouched⟩

theorem TouchedBy.sum_changes {f : Handle → Nat} {m m' : Model} (h : TouchedBy f m m')
    (hm : m.Coherent) (hm' : m'.Coherent) :
    ∑ p ∈ m.changes m', (p.2.modificationCount - p.1.modificationCount) =
      ∑ x ∈ (registryOf m.loaded).toFinset, (f x : Int) := by
  refine Finset.sum_bij (fun p _ => p.1.handle) ?_ ?_ ?_ ?_
  · intro p hp
    exact List.mem_toFinset.mpr (List.mem_map_of_mem (h.of_mem_changes hp).1)
  · intro p hp q hq he
    obtain ⟨hp₁, hp₂, htp⟩ := h.of_mem_changes hp
    obtain ⟨hq₁, hq₂, htq⟩ := h.of_mem_changes hq
    have he' : p.2.handle = q.2.handle := by rw [htp.same.handle, htq.same.handle, he]
    exact Prod.ext (hm p.1 hp₁ q.1 hq₁ he) (hm' p.2 hp₂ q.2 hq₂ he')
  · intro x hx
    obtain ⟨b, hb, rfl⟩ := List.mem_map.mp (List.mem_toFinset.mp hx)
    obtain ⟨i, hi⟩ := List.mem_iff_getElem?.mp hb
    obtain ⟨c, hc, -⟩ := h.2 i b hi
    have hzip : (m.loaded.zip m'.loaded)[i]? = some (b, c) :=
      List.getElem?_zip_eq_some.mpr ⟨hi, hc⟩
    exact ⟨(b, c), List.mem_toFinset.mpr (List.mem_of_getElem? hzip), rfl⟩
  · intro p hp
    rw [(h.of_mem_changes hp).2.2.count]
    omega

namespace Engine

variable {σ : Type} {sink : Sink σ} {text : Json} {e : Engine} {s : σ} {o : Outcome}

theorem eq_of_finish {o' : Outcome} {r : Engine × σ × Option Crash}
    (h : (finish o r).2.2 = .ok o') : o = o' := by
  obtain ⟨e, s, c⟩ := r
  cases c with
  | some c => cases h
  | none => exact Except.ok.inj h

theorem completed_of_success (ho : (e.apply sink text s).2.2 = .ok o)
    (hsuccess : o.success = true) :
    let d := Document.ofValue text
    e.busy = false ∧ e.scope.isOpen = false ∧ d.operations ≠ [] ∧
      ∃ m, runInTurn d.operations e.model = .ok m ∧
        o = ⟨d.operations.length, d.operations.length, none, d.metadata⟩ ∧
        e.apply sink text s =
          finish o (sink (.success d.operations.length) (e.committed m) s) := by
  have hcourse := course sink s text e
  generalize e.apply sink text s = result at ho hcourse
  cases hcourse with
  | busy hbusy =>
    obtain rfl := Except.ok.inj ho
    cases hsuccess
  | empty hidle h =>
    obtain rfl := eq_of_finish ho
    cases hsuccess
  | opened hidle hopened hne => cases ho
  | completed hidle hclosed hne h =>
    obtain rfl := eq_of_finish ho
    exact ⟨hidle, hclosed, hne, _, h, rfl, rfl⟩
  | refused hidle hclosed hops h hr =>
    obtain rfl := eq_of_finish ho
    cases hsuccess

theorem run_of_success (hsink : ∀ report told s, (sink report told s).1.model = told.model)
    (ho : (e.apply sink text s).2.2 = .ok o) (hsuccess : o.success = true) :
    runInTurn (Document.ofValue text).operations e.model = .ok (e.apply sink text s).1.model ∧
      o.applied = (Document.ofValue text).operations.length := by
  obtain ⟨-, -, -, m, hrun, rfl, happly⟩ := completed_of_success ho hsuccess
  rw [happly, model_finish, hsink]
  exact ⟨hrun, rfl⟩

/-- A patch that succeeds changes each blueprint as often as its operations name it in the model
before the patch. One that is not named is left as it was, and the counts of all that are loaded grow
by the number of the operations. -/
theorem touches_only_named (sink : Sink σ) (text : Json) (e : Engine) (s : σ)
    (hsink : ∀ report told s, (sink report told s).1.model = told.model)
    (hm : e.model.Coherent) (ho : (e.apply sink text s).2.2 = .ok o) (hsuccess : o.success = true) :
    let ops := (Document.ofValue text).operations
    let m := e.model
    let m' := (e.apply sink text s).1.model
    m'.loaded.length = m.loaded.length ∧
    (∀ (i : Nat) (b : Blueprint), m.loaded[i]? = some b → ∃ c : Blueprint, m'.loaded[i]? = some c ∧
      c.handle = b.handle ∧ c.name = b.name ∧ c.path = b.path ∧
      c.modificationCount = b.modificationCount + m.named ops b.handle ∧
      (m.named ops b.handle = 0 → c = b)) ∧
    ∑ p ∈ m.changes m', (p.2.modificationCount - p.1.modificationCount) = o.applied := by
  intro ops m m'
  obtain ⟨hrun, happlied⟩ := run_of_success hsink ho hsuccess
  have htouched := touchedBy_runInTurn hm hrun
  refine ⟨htouched.1, fun i b hb => ?_, ?_⟩
  · obtain ⟨c, hc, hbc⟩ := htouched.2 i b hb
    exact ⟨c, hc, hbc.same.handle, hbc.same.name, hbc.same.path, hbc.count, hbc.kept⟩
  · have htargets : ∀ op ∈ ops, ∃ x ∈ (registryOf m.loaded).toFinset, m.target? op = some x := by
      intro op hop
      obtain ⟨x, hx⟩ := exists_target?_of_runInTurn hm hrun op hop
      exact ⟨x, List.mem_toFinset.mpr (Model.target?_mem hx), hx⟩
    rw [htouched.sum_changes hm (hm.runInTurn hrun), happlied, ← sum_named htargets]
    exact (Nat.cast_sum _ _).symm

end Engine

/-- Two blueprints of one name, of which the first answers to it. -/
def twinEngine : Engine :=
  Engine.new ((Model.empty.load lampDraft).load { lampDraft with path := "/Game/Spare" }) 50
    "Apply AI Patch"

theorem touches_only_named_twins :
    (∀ report told s, (silentSink report told s).1.model = told.model) ∧
    twinEngine.model.Coherent ∧
    ∃ o b c c', (twinEngine.apply silentSink replaceN ()).2.2 = .ok o ∧ o.success = true ∧
      (twinEngine.apply silentSink replaceN ()).1.model.loaded[0]? = some c ∧
      c.modificationCount = 2 ∧ twinEngine.model.loaded[1]? = some b ∧
      (twinEngine.apply silentSink replaceN ()).1.model.loaded[1]? = some c' ∧ c' = b := by
  have hcoherent : twinEngine.model.Coherent :=
    (Reachable.load _ (by decide) (.load lampDraft (by decide) .empty)).tidy.coherent
  have happly := Engine.apply_of_completed silentSink () (rfl : twinEngine.busy = false) rfl
    (by rw [ofValue_replaceN]; simp) (by rw [ofValue_replaceN]; rfl)
  have hdone : (twinEngine.apply silentSink replaceN ()).2.2 = .ok ⟨2, 2, none, []⟩ := by
    rw [happly, Engine.finish_of_returned rfl, ofValue_replaceN]
    rfl
  have h := Engine.touches_only_named silentSink replaceN twinEngine () (fun _ _ _ => rfl) hcoherent
    hdone rfl
  rw [ofValue_replaceN] at h
  obtain ⟨c, hc, -, -, -, hcount, -⟩ := h.2.1 0 _ rfl
  obtain ⟨c', hc', -, -, -, -, hkept⟩ := h.2.1 1 _ rfl
  exact ⟨fun _ _ _ => rfl, hcoherent, _, _, c, c', hdone, rfl, hc, hcount, rfl, hc',
    hkept (by decide)⟩

end BlueprintPatch

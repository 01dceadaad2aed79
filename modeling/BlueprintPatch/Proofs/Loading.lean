import BlueprintPatch.Proofs.Registry
import BlueprintPatch.Proofs.Requests

/-! Blueprints that are loaded between the requests. Undoing a patch and bringing it back set the
registry to what it was when the patch was applied, so whatever has been loaded since is unloaded.
The places of the patches in the run tell which undoing and redoing does so. -/
namespace BlueprintPatch

def registryOf (s : Snapshot) : List Handle := s.map (·.handle)

theorem registryOf_update (b : Blueprint) (m : Model) :
    registryOf (m.update b).loaded = registryOf m.loaded := by
  simp [registryOf, Model.loaded_update, Function.comp_def]

theorem registryOf_runInTurn {ops : List RawOperation} {m m' : Model}
    (h : runInTurn ops m = .ok m') : registryOf m'.loaded = registryOf m.loaded := by
  refine runInTurn_induction (P := (registryOf ·.loaded = registryOf m.loaded)) ?_ rfl h
  intro op m₁ m₂ b c k hsame hleads
  rw [hleads.result]
  exact (registryOf_update c m₁).trans hsame

inductive Act
  | ask (r : EngineRequest)
  /-- A new blueprint is loaded. -/
  | load (d : BlueprintDraft)
  /-- A blueprint that exists is loaded, perhaps once more. -/
  | add (b : Blueprint)

namespace Act

variable {σ : Type}

/-- The engine after the act, the state of the sink, and what the response tells. -/
def perform (sink : Sink σ) (e : Engine) (s : σ) : Act → Engine × σ × Effect
  | ask r =>
    let (e, s, response) := r.serve sink e s
    (e, s, r.effect response)
  | load d => ({ e with model := e.model.load d }, s, .kept)
  | add b => ({ e with model := e.model.add b }, s, .kept)

def brings (e : Engine) : Act → List Handle
  | ask _ => []
  | load d => [(e.model.make d).1.handle]
  | add b => [b.handle]

def Steps : Act → Prop
  | ask .undo | ask .redo => True
  | _ => False

end Act

/-- An engine in a run, with all blueprints that have been added so far, the number of acts and the
places in the run of the patches that can be undone and of those that can be redone, the newest
first. -/
structure Chronicle (σ : Type) where
  engine : Engine
  sink : σ
  added : List Handle
  clock : Nat
  standing : List Nat
  undone : List Nat

namespace Chronicle

variable {σ : Type} (sink : Sink σ)

def start (e : Engine) (s : σ) : Chronicle σ := ⟨e, s, registryOf e.model.loaded, 0, [], []⟩

def registry (c : Chronicle σ) : List Handle := registryOf c.engine.model.loaded

def effect (c : Chronicle σ) (a : Act) : Effect := (a.perform sink c.engine c.sink).2.2

/-- The patch that the act takes back or brings back. -/
def moved (c : Chronicle σ) (a : Act) : Option Nat :=
  match c.effect sink a with
  | .undone => c.standing.head?
  | .redone => c.undone.head?
  | _ => none

def step (c : Chronicle σ) (a : Act) : Chronicle σ where
  engine := (a.perform sink c.engine c.sink).1
  sink := (a.perform sink c.engine c.sink).2.1
  added := c.added ++ a.brings c.engine
  clock := c.clock + 1
  standing :=
    match c.effect sink a with
    | .committed => c.clock :: c.standing
    | .undone => c.standing.tail
    | .redone => (c.moved sink a).toList ++ c.standing
    | .kept => c.standing
  undone :=
    match c.effect sink a with
    | .committed => []
    | .undone => (c.moved sink a).toList ++ c.undone
    | .redone => c.undone.tail
    | .kept => c.undone

/-- The run up to the act at the place `i`. -/
def upTo (acts : List Act) (c : Chronicle σ) (i : Nat) : Chronicle σ :=
  (acts.take i).foldl (step sink) c

theorem upTo_zero (acts : List Act) (c : Chronicle σ) : c.upTo sink acts 0 = c := by
  rw [upTo, List.take_zero]
  rfl

theorem upTo_succ {acts : List Act} {i : Nat} {a : Act} (c : Chronicle σ)
    (ha : acts[i]? = some a) : c.upTo sink acts (i + 1) = (c.upTo sink acts i).step sink a := by
  simp only [upTo, List.take_add_one, ha, Option.toList_some, List.foldl_append, List.foldl_cons,
    List.foldl_nil]

/-- The act at the place `i` is a patch that is committed. -/
def Commits (acts : List Act) (c : Chronicle σ) (i : Nat) : Prop :=
  ∃ a, acts[i]? = some a ∧ (c.upTo sink acts i).effect sink a = .committed

/-- Whenever something is to be undone or redone, all blueprints that have been added so far are
loaded after it. -/
def StaysLoaded (acts : List Act) (c : Chronicle σ) : Prop :=
  ∀ i a, acts[i]? = some a → a.Steps →
    (c.upTo sink acts (i + 1)).added ⊆ (c.upTo sink acts (i + 1)).registry

/-- What an act does to the registry and to the history. -/
inductive Performed (c c' : Chronicle σ) : Effect → Prop
  | committed (x : Entry) : registryOf x.before = c.registry → registryOf x.after = c.registry →
      c'.registry = c.registry → c'.added = c.added →
      c'.engine.history = c.engine.history.record x → Performed c c' .committed
  | undone (x : Entry) (rest : List Entry) : c.engine.history.done = x :: rest →
      c'.registry = registryOf x.before → c'.added = c.added →
      c'.engine.history =
        { c.engine.history with done := rest, undone := x :: c.engine.history.undone } →
      Performed c c' .undone
  | redone (x : Entry) (rest : List Entry) : c.engine.history.undone = x :: rest →
      c'.registry = registryOf x.after → c'.added = c.added →
      c'.engine.history =
        { c.engine.history with done := x :: c.engine.history.done, undone := rest } →
      Performed c c' .redone
  | kept (brought : List Handle) : c'.registry = c.registry ++ brought →
      c'.added = c.added ++ brought → c'.engine.history = c.engine.history → Performed c c' .kept

variable {sink}

theorem atRest_step (hsink : Discreet sink) {c : Chronicle σ} (hc : c.engine.AtRest) (a : Act) :
    (c.step sink a).engine.AtRest := by
  cases a with
  | ask r => exact (EngineRequest.served hsink hc c.sink r).atRest
  | load d => exact ⟨hc.idle, hc.closed, hc.unlocked⟩
  | add b => exact ⟨hc.idle, hc.closed, hc.unlocked⟩

theorem performed_of_change {c c' : Chronicle σ} {x : Effect} (h : Change c.engine c'.engine x)
    (hadded : c'.added = c.added) : Performed c c' x := by
  cases h with
  | committed ops hne hrun hrecord =>
    have hsame := registryOf_runInTurn hrun
    exact .committed _ rfl hsame hsame hadded hrecord
  | undone x rest hdone hmodel hhistory =>
    exact .undone x rest hdone (by rw [registry, hmodel, Model.loaded_restore]) hadded hhistory
  | redone x rest hundone hmodel hhistory =>
    exact .redone x rest hundone (by rw [registry, hmodel, Model.loaded_restore]) hadded hhistory
  | kept hloaded hnext hhistory =>
    exact .kept [] (by rw [registry, hloaded, List.append_nil, registry])
      (by rw [hadded, List.append_nil]) hhistory

theorem performed_step (hsink : Discreet sink) {c : Chronicle σ} (hc : c.engine.AtRest) (a : Act) :
    Performed c (c.step sink a) (c.effect sink a) := by
  cases a with
  | ask r =>
    have hserved := EngineRequest.served hsink hc c.sink r
    exact performed_of_change hserved.change (List.append_nil c.added)
  | load d => exact .kept _ (List.map_append ..) rfl rfl
  | add b => exact .kept _ (List.map_append ..) rfl rfl

theorem steps_of_moved {c : Chronicle σ} {a : Act} {p : Nat} (h : c.moved sink a = some p) :
    a.Steps := by
  match a with
  | .ask .undo | .ask .redo => trivial
  | .load _ | .add _ => simp [moved, effect, Act.perform] at h
  | .ask (.canApply _) => simp [moved, effect, Act.perform, EngineRequest.effect] at h
  | .ask (.apply text) =>
    have hnone : c.moved sink (.ask (.apply text)) = none := by
      rcases EngineRequest.effect_apply text
          ((EngineRequest.apply text).serve sink c.engine c.sink).2.2 with hx | hx <;>
        simp only [moved, effect, Act.perform, hx]
    simp [hnone] at h

/-- The entry is of a patch that was committed at the place `p` with these blueprints loaded. -/
structure Dated (was : Nat → List Handle → Prop) (now p : Nat) (x : Entry) : Prop where
  earlier : p < now
  before : was p (registryOf x.before)
  after : was p (registryOf x.after)

theorem Dated.later {was : Nat → List Handle → Prop} {now p : Nat} {x : Entry}
    (h : Dated was now p x) : Dated was (now + 1) p x :=
  ⟨Nat.lt_succ_of_lt h.earlier, h.before, h.after⟩

/-- The entries of the history are of the patches in the chronicle. -/
def Told (was : Nat → List Handle → Prop) (c : Chronicle σ) : Prop :=
  c.engine.history.MarkedBy (Dated was c.clock) c.standing c.undone

variable {was : Nat → List Handle → Prop}

theorem told_step {c : Chronicle σ} (h : c.Told was) (hsink : Discreet sink)
    (hc : c.engine.AtRest) {a : Act}
    (hwas : c.effect sink a = .committed → was c.clock c.registry) :
    (c.step sink a).Told was := by
  have hlater := h.imp fun p x => Dated.later
  have hperformed := performed_step hsink hc a
  generalize hx : c.effect sink a = effect at hwas hperformed
  cases hperformed with
  | committed x hbefore hafter hsame hadded hrecord =>
    have hdated : Dated was (c.clock + 1) c.clock x :=
      ⟨Nat.lt_succ_self _, hbefore ▸ hwas rfl, hafter ▸ hwas rfl⟩
    rw [Told, hrecord]
    simpa only [step, hx] using hlater.record hdated
  | undone x rest hdone hback hadded hhistory =>
    obtain ⟨p, marks, hstanding, -, hmarked⟩ := hlater.undo hdone
    rw [Told, hhistory]
    simpa only [step, moved, hx, hstanding, List.head?_cons, List.tail_cons, Option.toList_some,
      List.singleton_append] using hmarked
  | redone x rest hundone hback hadded hhistory =>
    obtain ⟨p, marks, hmarks, -, hmarked⟩ := hlater.redo hundone
    rw [Told, hhistory]
    simpa only [step, moved, hx, hmarks, List.head?_cons, List.tail_cons, Option.toList_some,
      List.singleton_append] using hmarked
  | kept brought hloaded hadded hhistory =>
    rw [Told, hhistory]
    simpa only [step, hx] using hlater

/-- An act that takes a patch back or brings it back returns to the registry in which the patch was
applied; any other act unloads nothing. -/
theorem registry_step {c : Chronicle σ} (h : c.Told was) (hsink : Discreet sink)
    (hc : c.engine.AtRest) (a : Act) :
    (∃ p, c.moved sink a = some p ∧ p < c.clock ∧ was p (c.step sink a).registry ∧
      (c.step sink a).added = c.added) ∨
    (c.moved sink a = none ∧ c.effect sink a ≠ .undone ∧ c.effect sink a ≠ .redone ∧
      ∃ brought, (c.step sink a).registry = c.registry ++ brought ∧
        (c.step sink a).added = c.added ++ brought) := by
  have hperformed := performed_step hsink hc a
  generalize hx : c.effect sink a = effect at hperformed
  cases hperformed with
  | undone x rest hdone hback hadded hhistory =>
    obtain ⟨p, marks, hstanding, hdated, -⟩ := h.undo hdone
    have hmoved : c.moved sink a = some p := by simp [moved, hx, hstanding]
    exact .inl ⟨p, hmoved, hdated.earlier, hback ▸ hdated.before, hadded⟩
  | redone x rest hundone hback hadded hhistory =>
    obtain ⟨p, marks, hmarks, hdated, -⟩ := h.redo hundone
    have hmoved : c.moved sink a = some p := by simp [moved, hx, hmarks]
    exact .inl ⟨p, hmoved, hdated.earlier, hback ▸ hdated.after, hadded⟩
  | committed x hbefore hafter hsame hadded hrecord =>
    exact .inr ⟨by simp [moved, hx], by decide, by decide, [],
      by rw [hsame, List.append_nil], by rw [hadded, List.append_nil]⟩
  | kept brought hloaded hadded hhistory =>
    exact .inr ⟨by simp [moved, hx], by decide, by decide, brought, hloaded, hadded⟩

/-- Along a run the entries of the history are of patches that were committed earlier, in the
registry of that time. -/
theorem told_upTo {acts : List Act} {c : Chronicle σ} (hsink : Discreet sink)
    (hc : c.engine.AtRest) (hclock : c.clock = 0) (htold : ∀ was, c.Told was) {i : Nat}
    (hi : i ≤ acts.length) :
    (c.upTo sink acts i).clock = i ∧ (c.upTo sink acts i).engine.AtRest ∧
      (c.upTo sink acts i).Told fun p registry =>
        Commits sink acts c p ∧ (c.upTo sink acts p).registry = registry := by
  induction i with
  | zero =>
    rw [upTo_zero]
    exact ⟨hclock, hc, htold _⟩
  | succ i ih =>
    obtain ⟨hnow, hrest, htells⟩ := ih (Nat.le_of_succ_le hi)
    have ha : acts[i]? = some acts[i] := List.getElem?_eq_getElem hi
    rw [upTo_succ sink c ha]
    refine ⟨congrArg (· + 1) hnow, atRest_step hsink hrest _, told_step htells hsink hrest ?_⟩
    intro hx
    rw [hnow]
    exact ⟨⟨_, ha, hx⟩, rfl⟩

/-- What the act at the place `i` does to the registry, with the places in the run. -/
theorem registry_upTo_succ (hsink : Discreet sink) (m : Model) (depth : Int) (label : String)
    (s : σ) {acts : List Act} {i : Nat} {a : Act} (ha : acts[i]? = some a) :
    let start := Chronicle.start (Engine.new m depth label) s
    let c := start.upTo sink acts
    (∃ p, (c i).moved sink a = some p ∧ p < i ∧
      (Commits sink acts start p ∧ (c p).registry = (c (i + 1)).registry) ∧
      (c (i + 1)).added = (c i).added) ∨
    ((c i).moved sink a = none ∧ (c i).effect sink a ≠ .undone ∧ (c i).effect sink a ≠ .redone ∧
      ∃ brought, (c (i + 1)).registry = (c i).registry ++ brought ∧
        (c (i + 1)).added = (c i).added ++ brought) := by
  intro start c
  obtain ⟨hi, -⟩ := List.getElem?_eq_some_iff.mp ha
  obtain ⟨hnow, hrest, htold⟩ := told_upTo hsink (c := start) (Engine.atRest_new m depth label) rfl
    (fun _ => History.MarkedBy.empty depth) (Nat.le_of_lt hi)
  have h := registry_step htold hsink hrest a
  rwa [hnow, ← upTo_succ sink start ha] at h

variable (sink) in
theorem added_subset_foldl (acts : List Act) (c : Chronicle σ) :
    c.added ⊆ (acts.foldl (step sink) c).added := by
  induction acts generalizing c with
  | nil => exact List.Subset.refl _
  | cons a rest ih => exact List.Subset.trans (List.subset_append_left ..) (ih (c.step sink a))

theorem added_subset_of_le (acts : List Act) (c : Chronicle σ) {p i : Nat} (h : p ≤ i) :
    (c.upTo sink acts p).added ⊆ (c.upTo sink acts i).added := by
  obtain ⟨k, rfl⟩ := Nat.exists_eq_add_of_le h
  simp only [upTo, List.take_add, List.foldl_append]
  exact added_subset_foldl sink _ _

theorem registry_subset_added (hsink : Discreet sink) (m : Model) (depth : Int) (label : String)
    (s : σ) {acts : List Act} {i : Nat} (hi : i ≤ acts.length) :
    let c := (Chronicle.start (Engine.new m depth label) s).upTo sink acts
    (c i).registry ⊆ (c i).added := by
  intro c
  -- an act may return to the registry at any earlier place
  induction i using Nat.strongRecOn with
  | ind i ih =>
    cases i with
    | zero => exact List.Subset.refl _
    | succ i =>
      have hle : i ≤ acts.length := Nat.le_of_succ_le hi
      have ha : acts[i]? = some acts[i] := List.getElem?_eq_getElem hi
      rcases registry_upTo_succ hsink m depth label s ha with
        ⟨p, -, hp, ⟨-, hback⟩, hadded⟩ | ⟨-, -, -, brought, hloaded, hadded⟩
      · have hthen : (c p).registry ⊆ (c p).added :=
          ih p (Nat.lt_succ_of_lt hp) (Nat.le_of_lt (Nat.lt_of_lt_of_le hp hle))
        rw [← hback, hadded]
        exact List.Subset.trans hthen (added_subset_of_le acts _ (Nat.le_of_lt hp))
      · rw [hloaded, hadded]
        exact List.append_subset.mpr
          ⟨List.subset_append_of_subset_left _ (ih i (Nat.lt_succ_self i) hle),
            List.subset_append_right ..⟩

/-- If no patch is moved that was applied before a blueprint was added, then at every place all that
has been added is loaded. -/
theorem added_subset_registry (hsink : Discreet sink) (m : Model) (depth : Int) (label : String)
    (s : σ) {acts : List Act}
    (h : let c := (Chronicle.start (Engine.new m depth label) s).upTo sink acts
      ∀ i a p, acts[i]? = some a → (c i).moved sink a = some p → (c i).added ⊆ (c p).added)
    {i : Nat} (hi : i ≤ acts.length) :
    let c := (Chronicle.start (Engine.new m depth label) s).upTo sink acts
    (c i).added ⊆ (c i).registry := by
  intro c
  induction i using Nat.strongRecOn with
  | ind i ih =>
    cases i with
    | zero => exact List.Subset.refl _
    | succ i =>
      have hle : i ≤ acts.length := Nat.le_of_succ_le hi
      have ha : acts[i]? = some acts[i] := List.getElem?_eq_getElem hi
      rcases registry_upTo_succ hsink m depth label s ha with
        ⟨p, hmoved, hp, ⟨-, hback⟩, hadded⟩ | ⟨-, -, -, brought, hloaded, hadded⟩
      · have hthen : (c p).added ⊆ (c p).registry :=
          ih p (Nat.lt_succ_of_lt hp) (Nat.le_of_lt (Nat.lt_of_lt_of_le hp hle))
        rw [← hback, hadded]
        exact List.Subset.trans (h i _ p ha hmoved) hthen
      · rw [hloaded, hadded]
        exact List.append_subset.mpr
          ⟨List.subset_append_of_subset_left _ (ih i (Nat.lt_succ_self i) hle),
            List.subset_append_right ..⟩

/-- Undoing a patch and bringing it back lead to the blueprints that were loaded when the patch was
applied. So all blueprints stay loaded exactly if no patch is taken back or brought back that was
applied before one of them was added. -/
theorem staysLoaded_iff (hsink : Discreet sink) (m : Model) (depth : Int) (label : String) (s : σ)
    (acts : List Act) :
    let start := Chronicle.start (Engine.new m depth label) s
    let c := start.upTo sink acts
    (∀ i a, acts[i]? = some a → (c i).effect sink a = .undone ∨ (c i).effect sink a = .redone →
      ∃ p < i, (c i).moved sink a = some p ∧ Commits sink acts start p ∧
        (c (i + 1)).registry = (c p).registry) ∧
    (start.StaysLoaded sink acts ↔
      ∀ i a p, acts[i]? = some a → (c i).moved sink a = some p → (c i).added ⊆ (c p).added) := by
  intro start c
  refine ⟨?_, ?_, ?_⟩
  · intro i a ha hx
    rcases registry_upTo_succ hsink m depth label s ha with
      ⟨p, hmoved, hp, ⟨hcommits, hback⟩, -⟩ | ⟨-, hundone, hredone, -⟩
    · exact ⟨p, hp, hmoved, hcommits, hback.symm⟩
    · exact absurd hx (not_or.mpr ⟨hundone, hredone⟩)
  · intro hstays i a p ha hmoved
    obtain ⟨hi, -⟩ := List.getElem?_eq_some_iff.mp ha
    rcases registry_upTo_succ hsink m depth label s ha with
      ⟨q, hq, hlt, ⟨-, hback⟩, hadded⟩ | ⟨hnone, -⟩
    · obtain rfl := Option.some.inj (hq.symm.trans hmoved)
      have hloaded := hstays i a ha (steps_of_moved hmoved)
      rw [← hback, hadded] at hloaded
      exact List.Subset.trans hloaded (registry_subset_added hsink m depth label s
        (Nat.le_of_lt (Nat.lt_trans hlt hi)))
    · exact absurd (hnone.symm.trans hmoved) (by simp)
  · intro h i a ha hsteps
    obtain ⟨hi, -⟩ := List.getElem?_eq_some_iff.mp ha
    exact added_subset_registry hsink m depth label s h hi

end Chronicle

def bareDoorDraft : BlueprintDraft := ⟨"Door", "/Game/Door", none, [], [], false, 0⟩

def doorFirst : List Act :=
  [.load bareDoorDraft, .ask (.apply (.str deletionOfN)), .ask .undo, .ask .redo]

def doorLater : List Act :=
  [.ask (.apply (.str deletionOfN)), .load bareDoorDraft, .ask .undo]

set_option maxRecDepth 4000 in
/-- The patch is taken back and brought back, and lamp and door stay loaded. -/
theorem staysLoaded_iff_doorFirst :
    let start := Chronicle.start lampEngine ()
    Discreet silentSink ∧
    (start.upTo silentSink doorFirst 2).moved silentSink (.ask .undo) = some 1 ∧
    (start.upTo silentSink doorFirst 3).moved silentSink (.ask .redo) = some 1 ∧
    start.StaysLoaded silentSink doorFirst := by
  intro start
  obtain ⟨-, hiff⟩ := Chronicle.staysLoaded_iff discreet_silentSink (Model.empty.load lampDraft) 50
    "Apply AI Patch" () doorFirst
  refine ⟨discreet_silentSink, rfl, rfl, hiff.mpr ?_⟩
  intro i a p ha hmoved
  match i with
  | 0 | 1 =>
    obtain rfl := Option.some.inj ha
    cases hmoved
  | 2 | 3 =>
    obtain rfl := Option.some.inj ha
    cases hmoved
    exact List.Subset.refl _
  | i + 4 => cases ha

set_option maxRecDepth 4000 in
/-- The door is gone. -/
theorem unloaded_by_undo :
    ¬ ∀ (m : Model) (depth : Int) (label : String) (acts : List Act),
      (Chronicle.start (Engine.new m depth label) ()).StaysLoaded silentSink acts := by
  intro h
  let last := (Chronicle.start lampEngine ()).upTo silentSink doorLater 3
  have hstays : last.added ⊆ last.registry :=
    h (Model.empty.load lampDraft) 50 "Apply AI Patch" doorLater 2 (.ask .undo) rfl trivial
  have hadded : last.added = [0, 5] := by rfl
  have hregistry : last.registry = [0] := by rfl
  rw [hadded, hregistry] at hstays
  exact absurd hstays (by decide)

end BlueprintPatch

import BlueprintPatch.Proofs.Timeline
import BlueprintPatch.Proofs.Rollback

/-! Many saved states of one heap. A history keeps two of them for each patch, and all of them refer
to the same objects and lists. Restoring one does not damage the others, whatever has been written
in between, so a heap that goes along with an engine holds what the engine's model holds. -/
namespace BlueprintPatch

namespace Heap

variable {o h h' : Heap}

/-- The saved state stands for these blueprints, and nothing of it is lost. -/
def Keeps (h : Heap) (saved : SavedModel) (s : Snapshot) : Prop :=
  ∃ o : Heap, Holds o h saved ∧ o.loaded = s

theorem Keeps.spares {saved : SavedModel} {s : Snapshot} (k : h.Keeps saved s)
    (hspares : Spares h h') (hs : h'.Sound) : h'.Keeps saved s := by
  obtain ⟨o, hholds, hloaded⟩ := k
  exact ⟨o, hholds.spares hspares hs, hloaded⟩

theorem Keeps.loaded_restore {saved : SavedModel} {s : Snapshot} (k : h.Keeps saved s) :
    (h.restore saved).loaded = s := by
  obtain ⟨o, hholds, hloaded⟩ := k
  exact hholds.loaded_restore.trans hloaded

theorem Keeps.spares_restore {saved : SavedModel} {s : Snapshot} (k : h.Keeps saved s) :
    Spares h (h.restore saved) ∧ (h.restore saved).Sound := by
  obtain ⟨o, hholds, -⟩ := k
  exact hholds.spares_restore

theorem Extends.spares (e : Extends o h) : Spares o h where
  next := e.next
  visible _ ha := e.visible ▸ ha
  hidden _ ha := ⟨Nat.lt_of_lt_of_le ha.1 e.next, e.visible ▸ ha.2⟩
  list a ha := e.list a ha.1
  texts a ha := e.texts a ha.1

theorem keeps_snapshot (hs : h.Sound) :
    Spares h h.snapshot.2 ∧ h.snapshot.2.Sound ∧ h.snapshot.2.loaded = h.loaded ∧
      h.snapshot.2.Keeps h.snapshot.1 h.loaded := by
  obtain ⟨hextends, hholds⟩ := holds_snapshot hs
  exact ⟨hextends.spares, hholds.sound, hextends.loaded hs, h, hholds, rfl⟩

theorem spares_mutations (hs : h.Sound) (hrun : Relation.ReflTransGen Mutation h h') :
    Spares h h' ∧ h'.Sound := by
  induction hrun with
  | refl => exact ⟨.refl h, hs⟩
  | tail _ hstep ih =>
    have hwrites := hstep.writes ih.2
    exact ⟨ih.1.trans hwrites.spares, hwrites.sound ih.2⟩

end Heap

structure SavedEntry where
  before : SavedModel
  after : SavedModel

/-- A heap with the states that have been saved of it: those around the patches that can be undone,
the newest first, and around those that can be redone. -/
structure Archive where
  heap : Heap
  done : List SavedEntry
  undone : List SavedEntry

namespace Archive

/-- What happens in the heap along with a request after which the blueprints `now` are loaded. A
patch saves the state, changes the heap in any way and saves the new state, or restores the old
one. -/
inductive Step (now : Snapshot) : Effect → Archive → Archive → Prop
  | committed {a : Archive} {changed : Heap} :
      Relation.ReflTransGen Heap.Mutation a.heap.snapshot.2 changed → changed.loaded = now →
      Step now .committed a
        ⟨changed.snapshot.2, ⟨a.heap.snapshot.1, changed.snapshot.1⟩ :: a.done, []⟩
  | undone {h : Heap} {x : SavedEntry} {done undone : List SavedEntry} :
      Step now .undone ⟨h, x :: done, undone⟩ ⟨h.restore x.before, done, x :: undone⟩
  | redone {h : Heap} {x : SavedEntry} {done undone : List SavedEntry} :
      Step now .redone ⟨h, done, x :: undone⟩ ⟨h.restore x.after, x :: done, undone⟩
  | rolledBack {a : Archive} {changed : Heap} :
      Relation.ReflTransGen Heap.Mutation a.heap.snapshot.2 changed →
      Step now .kept a ⟨changed.restore a.heap.snapshot.1, a.done, a.undone⟩
  | kept {a : Archive} : Step now .kept a a

/-- What happens in the heap along with the requests. -/
inductive Follows {σ : Type} (sink : Sink σ) :
    List EngineRequest → Engine → σ → Archive → Archive → Prop
  | nil {e : Engine} {s : σ} {a : Archive} : Follows sink [] e s a a
  | cons {r : EngineRequest} {rest : List EngineRequest} {e : Engine} {s : σ} {a b c : Archive} :
      Step (r.serve sink e s).1.model.loaded (r.effect (r.serve sink e s).2.2) a b →
      Follows sink rest (r.serve sink e s).1 (r.serve sink e s).2.1 b c →
      Follows sink (r :: rest) e s a c

/-- The heap keeps both states of the entry. -/
def KeepsEntry (h : Heap) (y : SavedEntry) (x : Entry) : Prop :=
  h.Keeps y.before x.before ∧ h.Keeps y.after x.after

theorem KeepsEntry.spares {h h' : Heap} {y : SavedEntry} {x : Entry} (k : KeepsEntry h y x)
    (hspares : Heap.Spares h h') (hs : h'.Sound) : KeepsEntry h' y x :=
  ⟨k.1.spares hspares hs, k.2.spares hspares hs⟩

/-- The heap holds what the model holds, and the saved states are those of the history. -/
structure Matches (a : Archive) (e : Engine) : Prop where
  sound : a.heap.Sound
  loaded : a.heap.loaded = e.model.loaded
  marked : e.history.MarkedBy (KeepsEntry a.heap) a.done a.undone

theorem matches_start {h : Heap} {m : Model} (hs : h.Sound) (hloaded : h.loaded = m.loaded)
    (depth : Int) (label : String) : Matches ⟨h, [], []⟩ (Engine.new m depth label) :=
  ⟨hs, hloaded, .empty depth⟩

theorem Matches.commit {a : Archive} {changed : Heap} {e e' : Engine} (h : a.Matches e)
    (hmutations : Relation.ReflTransGen Heap.Mutation a.heap.snapshot.2 changed)
    (hchanged : changed.loaded = e'.model.loaded)
    (hrecord : e'.history = e.history.record ⟨e.label, e.model.loaded, e'.model.loaded⟩) :
    Matches ⟨changed.snapshot.2, ⟨a.heap.snapshot.1, changed.snapshot.1⟩ :: a.done, []⟩ e' := by
  obtain ⟨hspares₁, hsound₁, -, hkeeps₁⟩ := Heap.keeps_snapshot h.sound
  obtain ⟨hspares₂, hsound₂⟩ := Heap.spares_mutations hsound₁ hmutations
  obtain ⟨hspares₃, hsound₃, hloaded₃, hkeeps₃⟩ := Heap.keeps_snapshot hsound₂
  have hspares := (hspares₁.trans hspares₂).trans hspares₃
  refine ⟨hsound₃, hloaded₃.trans hchanged, ?_⟩
  rw [hrecord]
  refine (h.marked.imp fun y x k => k.spares hspares hsound₃).record ⟨?_, ?_⟩
  · exact h.loaded ▸ hkeeps₁.spares (hspares₂.trans hspares₃) hsound₃
  · exact hchanged ▸ hkeeps₃

theorem Matches.rollback {a : Archive} {changed : Heap} {e e' : Engine} (h : a.Matches e)
    (hmutations : Relation.ReflTransGen Heap.Mutation a.heap.snapshot.2 changed)
    (hloaded : e'.model.loaded = e.model.loaded) (hhistory : e'.history = e.history) :
    Matches ⟨changed.restore a.heap.snapshot.1, a.done, a.undone⟩ e' := by
  obtain ⟨hspares₁, hsound₁, -, hkeeps₁⟩ := Heap.keeps_snapshot h.sound
  obtain ⟨hspares₂, hsound₂⟩ := Heap.spares_mutations hsound₁ hmutations
  have hkeeps₂ := hkeeps₁.spares hspares₂ hsound₂
  obtain ⟨hspares₃, hsound₃⟩ := hkeeps₂.spares_restore
  have hspares := (hspares₁.trans hspares₂).trans hspares₃
  refine ⟨hsound₃, hkeeps₂.loaded_restore.trans (h.loaded.trans hloaded.symm), ?_⟩
  rw [hhistory]
  exact h.marked.imp fun y x k => k.spares hspares hsound₃

theorem Matches.step {a b : Archive} {e e' : Engine} {x : Effect} (h : a.Matches e)
    (hchange : Change e e' x) (hstep : Step e'.model.loaded x a b) : b.Matches e' := by
  cases hchange with
  | committed ops hne hrun hrecord =>
    obtain ⟨hmutations, hchanged⟩ := hstep
    exact h.commit hmutations hchanged hrecord
  | undone y rest hdone hmodel hhistory =>
    obtain ⟨z, marks, hmarks, hkeeps, hmarked⟩ := h.marked.undo hdone
    cases hstep with
    | undone =>
      obtain ⟨rfl, rfl⟩ := List.cons.inj hmarks
      obtain ⟨hspares, hsound⟩ := hkeeps.1.spares_restore
      refine ⟨hsound, ?_, ?_⟩
      · rw [hmodel]
        exact hkeeps.1.loaded_restore
      · rw [hhistory]
        exact hmarked.imp fun y x k => k.spares hspares hsound
  | redone y rest hundone hmodel hhistory =>
    obtain ⟨z, marks, hmarks, hkeeps, hmarked⟩ := h.marked.redo hundone
    cases hstep with
    | redone =>
      obtain ⟨rfl, rfl⟩ := List.cons.inj hmarks
      obtain ⟨hspares, hsound⟩ := hkeeps.2.spares_restore
      refine ⟨hsound, ?_, ?_⟩
      · rw [hmodel]
        exact hkeeps.2.loaded_restore
      · rw [hhistory]
        exact hmarked.imp fun y x k => k.spares hspares hsound
  | kept hloaded hnext hhistory =>
    cases hstep with
    | rolledBack hmutations => exact h.rollback hmutations hloaded hhistory
    | kept => exact ⟨h.sound, h.loaded.trans hloaded.symm, hhistory ▸ h.marked⟩

theorem Matches.follows {σ : Type} {sink : Sink σ} (hsink : Discreet sink)
    {calls : List EngineRequest} {e : Engine} {s : σ} {a b : Archive}
    (hfollows : Follows sink calls e s a b) (he : e.AtRest) (h : a.Matches e) :
    b.Matches (serveAll sink calls e s).1 := by
  induction hfollows with
  | nil => exact h
  | @cons r rest e s a b c hstep _ ih =>
    have hserved := EngineRequest.served hsink he s r
    exact ih hserved.atRest (h.step hserved.change hstep)

end Archive

theorem Engine.undo_of_unlocked {e : Engine} (hunlocked : e.history.locked = false) :
    ∃ l e', e.undo = .ok (l, e') ∧ (l = none ↔ e.history.done.length = 0) := by
  cases hdone : e.history.done with
  | nil =>
    rw [undo, History.undo_nil e.model hunlocked hdone]
    exact ⟨_, _, rfl, by simp⟩
  | cons x rest =>
    rw [undo, History.undo_cons e.model hunlocked hdone]
    exact ⟨_, _, rfl, by simp⟩

theorem Engine.redo_of_unlocked {e : Engine} (hunlocked : e.history.locked = false) :
    ∃ l e', e.redo = .ok (l, e') ∧ (l = none ↔ e.history.undone.length = 0) := by
  cases hundone : e.history.undone with
  | nil =>
    rw [redo, History.redo_nil e.model hunlocked hundone]
    exact ⟨_, _, rfl, by simp⟩
  | cons x rest =>
    rw [redo, History.redo_cons e.model hunlocked hundone]
    exact ⟨_, _, rfl, by simp⟩

/-- After any requests the model is the state at the cursor of the timeline. There is nothing to
undo where the timeline begins, or where it has been given up because of the depth of the history,
and nothing to redo where it ends. The last part says the same of the objects in the heap, which the
saved states share. -/
theorem model_at_cursor {σ : Type} {sink : Sink σ} (hsink : Discreet sink) (m : Model)
    (depth : Int) (label : String) (s : σ) (calls : List EngineRequest) :
    let start := Engine.new m depth label
    let e := (serveAll sink calls start s).1
    let t := Timeline.along sink calls start s (.start m.loaded)
    t.states[t.cursor]? = some e.model.loaded ∧
    (∃ l e', e.undo = .ok (l, e') ∧ (l = none ↔ t.cursor = 0 ∨ t.cursor ≤ t.dropped)) ∧
    (∃ l e', e.redo = .ok (l, e') ∧ (l = none ↔ t.cursor + 1 = t.states.length)) ∧
    ∀ h w, h.Sound → h.loaded = m.loaded → Archive.Follows sink calls start s ⟨h, [], []⟩ w →
      w.heap.loaded = e.model.loaded := by
  intro start e t
  have hstart : start.AtRest := Engine.atRest_new m depth label
  have hrest : e.AtRest := serveAll_atRest hsink calls s hstart
  have hnow : (Timeline.start m.loaded).Tells start :=
    Timeline.tells_start (e := start) rfl rfl
  have htells : t.Tells e := Timeline.Tells.along hsink calls s hstart hnow
  have hcursor := htells.length_done
  have hlength := htells.length_undone
  obtain ⟨l, e₁, hundo, hl⟩ := Engine.undo_of_unlocked hrest.unlocked
  obtain ⟨k, e₂, hredo, hk⟩ := Engine.redo_of_unlocked hrest.unlocked
  refine ⟨htells.present, ⟨l, e₁, hundo, ?_⟩, ⟨k, e₂, hredo, ?_⟩, ?_⟩
  · rw [hl]
    omega
  · rw [hk]
    omega
  · intro h w hsound hloaded hfollows
    have hmatches : Archive.Matches ⟨h, [], []⟩ start :=
      Archive.matches_start hsound hloaded depth label
    exact (hmatches.follows hsink hfollows hstart).loaded

/-- The lamp without its node, marked as modified. -/
def emptiedLampHeap : Heap := (lampHeap.snapshot.2.deleteNode 3).markModified 0

set_option maxRecDepth 4000 in
/-- The deletion and its undoing, in the engine and in the heap. -/
theorem model_at_cursor_lamp :
    let calls := [EngineRequest.apply (.str deletionOfN), .undo]
    let t := Timeline.along silentSink calls lampEngine () (.start lampEngine.model.loaded)
    Discreet silentSink ∧ lampHeap.Sound ∧ lampHeap.loaded = lampEngine.model.loaded ∧
    emptiedLampHeap.loaded.flatMap (·.allNodes) = [] ∧
    t.cursor = 0 ∧ t.states.length = 2 ∧
    t.states[t.cursor]? = some (serveAll silentSink calls lampEngine ()).1.model.loaded ∧
    (emptiedLampHeap.snapshot.2.restore lampHeap.snapshot.1).loaded =
      (serveAll silentSink calls lampEngine ()).1.model.loaded := by
  intro calls t
  obtain ⟨hpresent, -, -, hheap⟩ := model_at_cursor discreet_silentSink
    (Model.empty.load lampDraft) 50 "Apply AI Patch" () calls
  have hloaded : lampHeap.loaded = lampEngine.model.loaded := by rfl
  have hmutations : Relation.ReflTransGen Heap.Mutation lampHeap.snapshot.2 emptiedLampHeap :=
    (Relation.ReflTransGen.single (.deleteNode 3)).tail (.markModified 0)
  have hfollows : Archive.Follows silentSink calls lampEngine () ⟨lampHeap, [], []⟩
      ⟨emptiedLampHeap.snapshot.2.restore lampHeap.snapshot.1, [],
        [⟨lampHeap.snapshot.1, emptiedLampHeap.snapshot.1⟩]⟩ :=
    .cons (.committed hmutations rfl) (.cons .undone .nil)
  exact ⟨discreet_silentSink, sound_lampHeap, hloaded, rfl, rfl, rfl, hpresent,
    hheap lampHeap _ sound_lampHeap hloaded hfollows⟩

end BlueprintPatch

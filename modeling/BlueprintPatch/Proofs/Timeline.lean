import BlueprintPatch.Proofs.Requests

/-! The history as a timeline: the states that committed patches have led to, and a cursor. A patch
that is committed takes the place of all that comes after the cursor; undoing and redoing move the
cursor. The model is always the state at the cursor. -/
namespace BlueprintPatch

structure Timeline where
  states : List Snapshot
  cursor : Nat
  /-- How many of the first steps have been given up because of the depth of the history. -/
  dropped : Nat

namespace Timeline

def start (now : Snapshot) : Timeline := ⟨[now], 0, 0⟩

/-- A step to a new state; at most `depth` steps are kept behind it. -/
def extend (depth : Int) (now : Snapshot) (t : Timeline) : Timeline :=
  ⟨t.states.take (t.cursor + 1) ++ [now], t.cursor + 1,
    max t.dropped (t.cursor + 1 - depth.toNat)⟩

def move (depth : Int) (now : Snapshot) (t : Timeline) : Effect → Timeline
  | .committed => t.extend depth now
  | .undone => { t with cursor := t.cursor - 1 }
  | .redone => { t with cursor := t.cursor + 1 }
  | .kept => t

/-- The timeline along the requests, as their responses tell it. -/
def along {σ : Type} (sink : Sink σ) : List EngineRequest → Engine → σ → Timeline → Timeline
  | [], _, _, t => t
  | r :: rest, e, s, t =>
    let x := r.serve sink e s
    along sink rest x.1 x.2.1 (t.move e.history.depth x.1.model.loaded (r.effect x.2.2))

/-- The model is the state at the cursor, and the entries of the history are the steps before the
cursor that have not been given up, and those after it. -/
structure Tells (t : Timeline) (e : Engine) : Prop where
  present : t.states[t.cursor]? = some e.model.loaded
  done : ∀ i x, e.history.done[i]? = some x →
    t.states[t.cursor - (i + 1)]? = some x.before ∧ t.states[t.cursor - i]? = some x.after
  undone : ∀ i x, e.history.undone[i]? = some x →
    t.states[t.cursor + i]? = some x.before ∧ t.states[t.cursor + (i + 1)]? = some x.after
  length_done : t.dropped + e.history.done.length = t.cursor
  length_undone : t.cursor + 1 + e.history.undone.length = t.states.length
  bounded : t.states.length ≤ t.dropped + e.history.depth.toNat + 1

theorem tells_start {e : Engine} (hdone : e.history.done = []) (hundone : e.history.undone = []) :
    (start e.model.loaded).Tells e := by
  constructor <;> simp [start, hdone, hundone]

theorem getElem?_extend_of_le {t : Timeline} {now : Snapshot} {depth : Int} {i : Nat}
    (hlength : t.cursor + 1 ≤ t.states.length) (hi : i ≤ t.cursor) :
    (t.extend depth now).states[i]? = t.states[i]? := by
  have htake : i < (t.states.take (t.cursor + 1)).length := by
    rw [List.length_take]
    omega
  simp only [extend]
  rw [List.getElem?_append_left htake, List.getElem?_take_of_lt (by omega)]

theorem getElem?_extend_last {t : Timeline} {now : Snapshot} {depth : Int}
    (hlength : t.cursor + 1 ≤ t.states.length) :
    (t.extend depth now).states[t.cursor + 1]? = some now := by
  have htake : (t.states.take (t.cursor + 1)).length = t.cursor + 1 := by
    rw [List.length_take]
    omega
  simp only [extend]
  rw [List.getElem?_append_right (by omega), htake, Nat.sub_self]
  rfl

theorem Tells.length_done_le {t : Timeline} {e : Engine} (h : t.Tells e) :
    e.history.done.length ≤ e.history.depth.toNat := by
  have h₁ := h.length_done
  have h₂ := h.length_undone
  have h₃ := h.bounded
  omega

theorem Tells.commit {t : Timeline} {e e' : Engine} (h : t.Tells e)
    (hrecord : e'.history = e.history.record ⟨e.label, e.model.loaded, e'.model.loaded⟩) :
    (t.extend e.history.depth e'.model.loaded).Tells e' := by
  have hdone := History.done_record ⟨e.label, e.model.loaded, e'.model.loaded⟩ h.length_done_le
  rw [← hrecord] at hdone
  have hundone : e'.history.undone = [] := by rw [hrecord]; rfl
  have hdepth : e'.history.depth = e.history.depth := by rw [hrecord]; rfl
  have hcursor := h.length_done
  have hlength := h.length_undone
  have hbounded := h.bounded
  have hstates : (t.extend e.history.depth e'.model.loaded).states.length = t.cursor + 2 := by
    simp only [extend, List.length_append, List.length_take, List.length_singleton]
    omega
  have hlast : (t.extend e.history.depth e'.model.loaded).states[t.cursor + 1]? =
      some e'.model.loaded := getElem?_extend_last (by omega)
  have hbefore {i : Nat} (hi : i ≤ t.cursor) :
      (t.extend e.history.depth e'.model.loaded).states[i]? = t.states[i]? :=
    getElem?_extend_of_le (by omega) hi
  refine ⟨hlast, fun i x hx => ?_, by simp [hundone], ?_, ?_, ?_⟩
  · rw [hdone, List.getElem?_take] at hx
    obtain ⟨-, hx⟩ := Option.ite_none_right_eq_some.mp hx
    cases i with
    | zero =>
      obtain rfl := Option.some.inj hx
      exact ⟨(hbefore (Nat.le_refl _)).trans h.present, hlast⟩
    | succ j =>
      obtain ⟨h₁, h₂⟩ := h.done j x hx
      have hshift (k : Nat) : t.cursor + 1 - (k + 1) = t.cursor - k := by omega
      simp only [extend, hshift]
      exact ⟨(hbefore (Nat.sub_le _ _)).trans h₁, (hbefore (Nat.sub_le _ _)).trans h₂⟩
  · simp only [extend, hdone, List.length_take, List.length_cons]
    omega
  · rw [hstates, hundone]
    rfl
  · rw [hstates, hdepth]
    simp only [extend]
    omega

theorem Tells.undone_move {t : Timeline} {e e' : Engine} (h : t.Tells e) {x : Entry}
    {rest : List Entry} (hdone : e.history.done = x :: rest)
    (hmodel : e'.model = e.model.restore x.before)
    (hhistory : e'.history =
      { e.history with done := rest, undone := x :: e.history.undone }) :
    Tells { t with cursor := t.cursor - 1 } e' := by
  have hcursor := h.length_done
  have hlength := h.length_undone
  have hbounded := h.bounded
  rw [hdone, List.length_cons] at hcursor
  obtain ⟨hback, hhere⟩ := h.done 0 x (by rw [hdone]; rfl)
  constructor
  · rw [hmodel]
    exact hback
  · intro i y hy
    rw [hhistory] at hy
    have hshift (k : Nat) : t.cursor - 1 - k = t.cursor - (k + 1) := by omega
    simp only [hshift]
    exact h.done (i + 1) y (by rw [hdone]; exact hy)
  · intro i y hy
    rw [hhistory] at hy
    cases i with
    | zero =>
      obtain rfl := Option.some.inj hy
      refine ⟨hback, ?_⟩
      rw [Nat.zero_add, Nat.sub_add_cancel (by omega)]
      exact hhere
    | succ j =>
      have hshift (k : Nat) : t.cursor - 1 + (k + 1) = t.cursor + k := by omega
      simp only [hshift]
      exact h.undone j y hy
  · simp only [hhistory]
    omega
  · simp only [hhistory, List.length_cons]
    omega
  · rw [hhistory]
    exact hbounded

theorem Tells.redone_move {t : Timeline} {e e' : Engine} (h : t.Tells e) {x : Entry}
    {rest : List Entry} (hundone : e.history.undone = x :: rest)
    (hmodel : e'.model = e.model.restore x.after)
    (hhistory : e'.history =
      { e.history with done := x :: e.history.done, undone := rest }) :
    Tells { t with cursor := t.cursor + 1 } e' := by
  have hcursor := h.length_done
  have hlength := h.length_undone
  have hbounded := h.bounded
  rw [hundone, List.length_cons] at hlength
  obtain ⟨hhere, hnext⟩ := h.undone 0 x (by rw [hundone]; rfl)
  constructor
  · rw [hmodel]
    exact hnext
  · intro i y hy
    rw [hhistory] at hy
    cases i with
    | zero =>
      obtain rfl := Option.some.inj hy
      exact ⟨hhere, hnext⟩
    | succ j =>
      have hshift (k : Nat) : t.cursor + 1 - (k + 1) = t.cursor - k := by omega
      simp only [hshift]
      exact h.done j y hy
  · intro i y hy
    rw [hhistory] at hy
    have hshift (k : Nat) : t.cursor + 1 + k = t.cursor + (k + 1) := by omega
    simp only [hshift]
    exact h.undone (i + 1) y (by rw [hundone]; exact hy)
  · simp only [hhistory, List.length_cons]
    omega
  · simp only [hhistory]
    omega
  · rw [hhistory]
    exact hbounded

theorem Tells.move {t : Timeline} {e e' : Engine} {x : Effect} (h : t.Tells e)
    (hchange : Change e e' x) : (t.move e.history.depth e'.model.loaded x).Tells e' := by
  cases hchange with
  | committed ops hne hrun hrecord => exact h.commit hrecord
  | undone y rest hdone hmodel hhistory => exact h.undone_move hdone hmodel hhistory
  | redone y rest hundone hmodel hhistory => exact h.redone_move hundone hmodel hhistory
  | kept hloaded hnext hhistory =>
    exact ⟨hloaded ▸ h.present, hhistory ▸ h.done, hhistory ▸ h.undone, hhistory ▸ h.length_done,
      hhistory ▸ h.length_undone, hhistory ▸ h.bounded⟩

theorem Tells.along {σ : Type} {sink : Sink σ} (hsink : Discreet sink) (calls : List EngineRequest)
    {e : Engine} (s : σ) {t : Timeline} (he : e.AtRest) (h : t.Tells e) :
    (along sink calls e s t).Tells (serveAll sink calls e s).1 := by
  induction calls generalizing e s t with
  | nil => exact h
  | cons r rest ih =>
    have hserved := EngineRequest.served hsink he s r
    exact ih _ hserved.atRest (h.move hserved.change)

end Timeline

end BlueprintPatch

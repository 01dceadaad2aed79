import BlueprintPatch.Graph.History

/-! The entries of a history: what recording, undoing and redoing make of them, and marks that are
kept beside them by somebody who sees only what happens. -/
namespace BlueprintPatch

namespace History

variable {h : History} (m : Model)

theorem unlock_of_unlocked (hopen : h.locked = false) : h.unlock = h := by
  rw [unlock, ← hopen]

theorem undo_nil (hopen : h.locked = false) (hdone : h.done = []) :
    h.undo m = .ok (none, h, m) := by
  simp [undo, hopen, hdone]

theorem undo_cons (hopen : h.locked = false) {x : Entry} {rest : List Entry}
    (hdone : h.done = x :: rest) :
    h.undo m =
      .ok (some x.label, { h with done := rest, undone := x :: h.undone }, m.restore x.before) := by
  simp [undo, hopen, hdone]

theorem redo_nil (hopen : h.locked = false) (hundone : h.undone = []) :
    h.redo m = .ok (none, h, m) := by
  simp [redo, hopen, hundone]

theorem redo_cons (hopen : h.locked = false) {x : Entry} {rest : List Entry}
    (hundone : h.undone = x :: rest) :
    h.redo m =
      .ok (some x.label, { h with done := x :: h.done, undone := rest }, m.restore x.after) := by
  simp [redo, hopen, hundone]

theorem done_record (x : Entry) (hlength : h.done.length ≤ h.depth.toNat) :
    (h.record x).done = (x :: h.done).take h.depth.toNat := by
  by_cases hfull : h.depth < (x :: h.done).length
  · have hdepth : h.depth.toNat = h.done.length := by
      rw [List.length_cons] at hfull
      omega
    simp only [record, hfull, if_true]
    rw [List.dropLast_eq_take, hdepth]
    rfl
  · have hall : (x :: h.done).length ≤ h.depth.toNat := by
      rw [List.length_cons] at hfull ⊢
      omega
    simp only [record, hfull, if_false]
    rw [List.take_of_length_le hall]

end History

/-- Every entry has its mark, at the same place. There may be marks of entries that the history has
dropped. -/
def Marked {α : Type} (R : α → Entry → Prop) (marks : List α) (entries : List Entry) : Prop :=
  ∀ (i : Nat) (x : Entry), entries[i]? = some x → ∃ y, marks[i]? = some y ∧ R y x

namespace Marked

variable {α : Type} {R R' : α → Entry → Prop} {marks : List α} {entries : List Entry}

theorem nil : Marked R marks [] :=
  fun i x hx => absurd hx (by simp)

theorem imp (k : Marked R marks entries) (h : ∀ y x, R y x → R' y x) :
    Marked R' marks entries := by
  intro i x hx
  obtain ⟨y, hy, hr⟩ := k i x hx
  exact ⟨y, hy, h y x hr⟩

theorem cons (k : Marked R marks entries) {y : α} {x : Entry} (h : R y x) :
    Marked R (y :: marks) (x :: entries) := by
  intro i z hz
  cases i with
  | zero =>
    obtain rfl := Option.some.inj hz
    exact ⟨y, rfl, h⟩
  | succ j => exact k j z hz

theorem uncons {x : Entry} (k : Marked R marks (x :: entries)) :
    ∃ y rest, marks = y :: rest ∧ R y x ∧ Marked R rest entries := by
  obtain ⟨y, hy, h⟩ := k 0 x rfl
  cases marks with
  | nil => simp at hy
  | cons z rest =>
    obtain rfl := Option.some.inj hy
    exact ⟨z, rest, rfl, h, fun i w hw => k (i + 1) w hw⟩

theorem take (k : Marked R marks entries) (n : Nat) : Marked R marks (entries.take n) := by
  intro i x hx
  rw [List.getElem?_take] at hx
  exact k i x (Option.ite_none_right_eq_some.mp hx).2

end Marked

/-- Marks of the patches that can be undone and of those that can be redone. -/
structure History.MarkedBy {α : Type} (h : History) (R : α → Entry → Prop) (done undone : List α) :
    Prop where
  done : Marked R done h.done
  undone : Marked R undone h.undone
  bounded : h.done.length + h.undone.length ≤ h.depth.toNat

namespace History.MarkedBy

variable {α : Type} {R R' : α → Entry → Prop} {h : History} {done undone : List α}

theorem empty (depth : Int) : (History.empty depth).MarkedBy R [] [] :=
  ⟨.nil, .nil, Nat.zero_le _⟩

theorem imp (k : h.MarkedBy R done undone) (hR : ∀ y x, R y x → R' y x) :
    h.MarkedBy R' done undone :=
  ⟨k.done.imp hR, k.undone.imp hR, k.bounded⟩

theorem record (k : h.MarkedBy R done undone) {y : α} {x : Entry} (hR : R y x) :
    (h.record x).MarkedBy R (y :: done) [] := by
  have hdone := done_record x (Nat.le_trans (Nat.le_add_right ..) k.bounded)
  constructor
  · rw [hdone]
    exact (k.done.cons hR).take _
  · exact .nil
  · rw [hdone, List.length_take]
    exact Nat.min_le_left ..

theorem undo (k : h.MarkedBy R done undone) {x : Entry} {rest : List Entry}
    (hdone : h.done = x :: rest) :
    ∃ y marks, done = y :: marks ∧ R y x ∧
      ({ h with done := rest, undone := x :: h.undone } : History).MarkedBy R marks
        (y :: undone) := by
  have hmarked := k.done
  have hbounded := k.bounded
  rw [hdone] at hmarked hbounded
  obtain ⟨y, marks, rfl, hR, hrest⟩ := hmarked.uncons
  refine ⟨y, marks, rfl, hR, hrest, k.undone.cons hR, ?_⟩
  simp only [List.length_cons] at hbounded ⊢
  omega

theorem redo (k : h.MarkedBy R done undone) {x : Entry} {rest : List Entry}
    (hundone : h.undone = x :: rest) :
    ∃ y marks, undone = y :: marks ∧ R y x ∧
      ({ h with done := x :: h.done, undone := rest } : History).MarkedBy R (y :: done) marks := by
  have hmarked := k.undone
  have hbounded := k.bounded
  rw [hundone] at hmarked hbounded
  obtain ⟨y, marks, rfl, hR, hrest⟩ := hmarked.uncons
  refine ⟨y, marks, rfl, hR, k.done.cons hR, hrest, ?_⟩
  simp only [List.length_cons] at hbounded ⊢
  omega

end History.MarkedBy

end BlueprintPatch

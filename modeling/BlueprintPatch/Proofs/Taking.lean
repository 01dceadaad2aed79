import BlueprintPatch.Graph.Blueprint

/-! Taking the first element that satisfies a test, out of a list and out of the graphs of a
blueprint: what is taken is the first that is found, and the others stay in their order. -/
namespace BlueprintPatch

theorem exists_first {α : Type} {p : α → Bool} {as : List α} (h : (as.find? p).isSome) :
    ∃ before a after, as = before ++ a :: after ∧ p a = true ∧ ∀ x ∈ before, ¬ p x = true := by
  obtain ⟨a, ha⟩ := Option.isSome_iff_exists.mp h
  obtain ⟨hp, before, after, rfl, hbefore⟩ := List.find?_eq_some_iff_append.mp ha
  exact ⟨before, a, after, rfl, hp, by simpa using hbefore⟩

theorem takeFirst?_eq {α : Type} (p : α → Bool) (as : List α) :
    takeFirst? p as = (as.find? p).map fun a => (a, as.eraseP p) := by
  induction as with
  | nil => rfl
  | cons a as ih =>
    by_cases h : p a
    · simp [takeFirst?, h]
    · simp [takeFirst?, h, ih, Function.comp_def]

theorem takeFirst?_append {α : Type} {p : α → Bool} {before after : List α} {a : α}
    (hbefore : ∀ x ∈ before, ¬ p x = true) (ha : p a = true) :
    takeFirst? p (before ++ a :: after) = some (a, before ++ after) := by
  induction before with
  | nil => simp [takeFirst?, ha]
  | cons b before ih =>
    rw [List.forall_mem_cons] at hbefore
    simp [takeFirst?, hbefore.1, ih hbefore.2]

theorem perm_of_takeFirst? {α : Type} {p : α → Bool} {as left : List α} {a : α}
    (h : takeFirst? p as = some (a, left)) : as.Perm (a :: left) := by
  induction as generalizing left with
  | nil => simp [takeFirst?] at h
  | cons b bs ih =>
    by_cases hb : p b
    · obtain ⟨rfl, rfl⟩ : b = a ∧ bs = left := by simpa [takeFirst?, hb] using h
      exact .refl _
    · simp only [takeFirst?, hb, Bool.false_eq_true, if_false, Option.map_eq_some_iff] at h
      obtain ⟨⟨a', left'⟩, htake, heq⟩ := h
      obtain ⟨rfl, rfl⟩ := Prod.mk.inj heq
      exact ((ih htake).cons b).trans (.swap a' b left')

/-- What is taken stood somewhere, and the others are left where they were. -/
theorem eraseIdx_of_takeFirst? {α : Type} {p : α → Bool} {as left : List α} {a : α}
    (h : takeFirst? p as = some (a, left)) :
    p a = true ∧ ∃ k, as[k]? = some a ∧ left = as.eraseIdx k := by
  rw [takeFirst?_eq] at h
  obtain ⟨x, hfind, heq⟩ := Option.map_eq_some_iff.mp h
  obtain ⟨rfl, rfl⟩ := Prod.mk.inj heq
  obtain ⟨hp, before, after, rfl, hbefore⟩ := List.find?_eq_some_iff_append.mp hfind
  refine ⟨hp, before.length, by simp, ?_⟩
  have hnone : ∀ y ∈ before, ¬ p y = true := by simpa using hbefore
  rw [List.eraseP_append_right _ hnone, List.eraseP_cons_of_pos hp,
    List.eraseIdx_append_of_length_le (Nat.le_refl _), Nat.sub_self, List.eraseIdx_cons_zero]

theorem takeFirst?_eq_none_iff {α : Type} {p : α → Bool} {as : List α} :
    takeFirst? p as = none ↔ ∀ a ∈ as, ¬ p a = true := by
  rw [takeFirst?_eq, Option.map_eq_none_iff, List.find?_eq_none]

theorem takeNode?_flatMap (p : Node → Bool) (gs : List Graph) :
    (takeNode? p gs).map (fun r => (r.1, r.2.flatMap (·.nodes))) =
      takeFirst? p (gs.flatMap (·.nodes)) := by
  induction gs with
  | nil => rfl
  | cons g gs ih =>
    rw [takeFirst?_eq] at ih ⊢
    unfold takeNode?
    rw [takeFirst?_eq]
    cases hg : g.nodes.find? p with
    | some x =>
      have hsome : (g.nodes.any p) = true := by
        rw [List.any_eq_true]
        exact ⟨x, List.mem_of_find?_eq_some hg, List.find?_some hg⟩
      obtain ⟨y, hy, hpy⟩ := List.any_eq_true.mp hsome
      simp [List.find?_append, hg, List.eraseP_append_left hpy _ hy]
    | none =>
      have hnone : ∀ x ∈ g.nodes, ¬ p x := by simpa using List.find?_eq_none.mp hg
      have hrest : ∀ r : Node × List Graph,
          (fun r : Node × List Graph => (r.1, r.2.flatMap (·.nodes))) (r.1, g :: r.2) =
            (r.1, g.nodes ++ r.2.flatMap (·.nodes)) := fun _ => rfl
      have herase : (g.nodes ++ gs.flatMap (·.nodes)).eraseP p =
          g.nodes ++ (gs.flatMap (·.nodes)).eraseP p := List.eraseP_append_right _ hnone
      cases ht : takeNode? p gs with
      | none =>
        rw [ht] at ih
        have hf : (gs.flatMap (·.nodes)).find? p = none := by simpa using ih.symm
        simp [List.find?_append, hg, hf]
      | some r =>
        rw [ht] at ih
        obtain ⟨x, hx, heq⟩ := Option.map_eq_some_iff.mp ih.symm
        obtain ⟨h₁, h₂⟩ := Prod.mk.inj heq
        simp [List.find?_append, hg, hx, herase, ← h₁, ← h₂]

theorem takeNode?_append {p : Node → Bool} {before after : List Graph} {g : Graph} {x : Node}
    {left : List Node} (hbefore : ∀ k ∈ before, ¬ k.nodes.any p = true)
    (hg : takeFirst? p g.nodes = some (x, left)) :
    takeNode? p (before ++ g :: after) =
      some (x, before ++ { g with nodes := left } :: after) := by
  induction before with
  | nil => simp [takeNode?, hg]
  | cons k before ih =>
    rw [List.forall_mem_cons] at hbefore
    have hk : takeFirst? p k.nodes = none := by
      rw [takeFirst?_eq_none_iff]
      simpa using hbefore.1
    simp [takeNode?, hk, ih hbefore.2]

theorem isSome_takeNode? (p : Node → Bool) (gs : List Graph) :
    (takeNode? p gs).isSome = ((gs.flatMap (·.nodes)).find? p).isSome := by
  have h := congrArg Option.isSome (takeNode?_flatMap p gs)
  rwa [takeFirst?_eq, Option.isSome_map, Option.isSome_map] at h

theorem perm_of_takeNode? {p : Node → Bool} {gs left : List Graph} {x : Node}
    (h : takeNode? p gs = some (x, left)) :
    (gs.flatMap (·.nodes)).Perm (x :: left.flatMap (·.nodes)) := by
  apply perm_of_takeFirst? (p := p)
  rw [← takeNode?_flatMap, h]
  rfl

namespace Blueprint

theorem isSome_removeNode? (p : Node → Bool) (b : Blueprint) :
    (b.removeNode? p).isSome = (b.allNodes.find? p).isSome := by
  rw [removeNode?, Option.isSome_map, isSome_takeNode?, allNodes]

end Blueprint

end BlueprintPatch

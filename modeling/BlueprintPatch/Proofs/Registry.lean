import BlueprintPatch.Graph.Model

/-! The registry under changes of one blueprint: which blueprint answers to an identifier, and
what becomes of the loaded ones. -/
namespace BlueprintPatch
namespace Model

/-- One object has one content: blueprints that are loaded with the same handle are equal. -/
def Coherent (m : Model) : Prop :=
  ∀ b ∈ m.loaded, ∀ c ∈ m.loaded, b.handle = c.handle → b = c

@[simp] theorem loaded_draw (k : Nat) (m : Model) : (m.draw k).loaded = m.loaded := rfl

@[simp] theorem next_draw (k : Nat) (m : Model) : (m.draw k).next = m.next + k := rfl

@[simp] theorem next_update (b : Blueprint) (m : Model) : (m.update b).next = m.next := rfl

/-- The blueprint in the place of `x` once the object of `b` has become `b`. -/
def supplant (b x : Blueprint) : Blueprint := if x.handle = b.handle then b else x

theorem loaded_update (b : Blueprint) (m : Model) :
    (m.update b).loaded = m.loaded.map (supplant b) := rfl

theorem supplant_of_eq {b x : Blueprint} (h : x.handle = b.handle) : supplant b x = b := if_pos h

theorem supplant_of_ne {b x : Blueprint} (h : x.handle ≠ b.handle) : supplant b x = x := if_neg h

@[simp] theorem handle_supplant (b x : Blueprint) : (supplant b x).handle = x.handle := by
  by_cases h : x.handle = b.handle
  · rw [supplant_of_eq h, h]
  · rw [supplant_of_ne h]

theorem forall_loaded_update {P : Blueprint → Prop} {b : Blueprint} {m : Model} (hb : P b)
    (h : ∀ x ∈ m.loaded, P x) : ∀ x ∈ (m.update b).loaded, P x := by
  intro y hy
  rw [loaded_update] at hy
  obtain ⟨x, hx, rfl⟩ := List.mem_map.mp hy
  by_cases he : x.handle = b.handle
  · rwa [supplant_of_eq he]
  · rw [supplant_of_ne he]
    exact h x hx

theorem mem_loaded_update {b c : Blueprint} {m : Model} (hb : b ∈ m.loaded)
    (h : b.handle = c.handle) : c ∈ (m.update c).loaded :=
  List.mem_map.mpr ⟨b, hb, supplant_of_eq h⟩

theorem coherent_update (b : Blueprint) {m : Model} (h : m.Coherent) : (m.update b).Coherent := by
  intro x' hx' y' hy' hxy
  rw [loaded_update] at hx' hy'
  obtain ⟨x, hx, rfl⟩ := List.mem_map.mp hx'
  obtain ⟨y, hy, rfl⟩ := List.mem_map.mp hy'
  have he : x = y := h x hx y hy (by simpa using hxy)
  rw [he]

theorem coherent_draw (k : Nat) {m : Model} (h : m.Coherent) : (m.draw k).Coherent := h

theorem mem_of_resolve? {id : String} {m : Model} {b : Blueprint} (h : m.resolve? id = some b) :
    b ∈ m.loaded := by
  unfold resolve? at h
  split at h
  · contradiction
  · split at h
    · next heq => exact Option.some.inj h ▸ List.mem_of_find?_eq_some heq
    · exact List.mem_of_find?_eq_some h

/-- The second blueprint can take the place of the first without a change of what answers to an
identifier. -/
structure SameIdentity (b c : Blueprint) : Prop where
  handle : c.handle = b.handle
  name : c.name = b.name
  path : c.path = b.path

theorem find?_supplant {m : Model} (hm : m.Coherent) {b c : Blueprint} (hb : b ∈ m.loaded)
    (h : SameIdentity b c) {p : Blueprint → Bool} (hp : p c = p b) :
    (m.loaded.map (supplant c)).find? p = (m.loaded.find? p).map (supplant c) := by
  rw [List.find?_map]
  have hq : ∀ x ∈ m.loaded, (p ∘ supplant c) x = p x := by
    intro x hx
    by_cases he : x.handle = c.handle
    · obtain rfl : x = b := hm x hx b hb (he.trans h.handle)
      rw [Function.comp_apply, supplant_of_eq he, hp]
    · rw [Function.comp_apply, supplant_of_ne he]
  congr 1
  revert hq
  generalize m.loaded = xs
  intro hq
  induction xs with
  | nil => rfl
  | cons x xs ih =>
    have hx := hq x (by simp)
    rw [List.find?_cons, List.find?_cons, hx, ih fun y hy => hq y (by simp [hy])]

theorem resolve?_update {m : Model} (hm : m.Coherent) {b c : Blueprint} (hb : b ∈ m.loaded)
    (h : SameIdentity b c) (id : String) :
    (m.update c).resolve? id = (m.resolve? id).map (supplant c) := by
  unfold resolve?
  rw [loaded_update, find?_supplant hm hb h (by rw [h.path]),
    find?_supplant hm hb h (by rw [h.name])]
  by_cases hid : id = ""
  · simp [hid]
  · cases m.loaded.find? (·.path = id) <;> simp [hid]

@[simp] theorem resolve?_draw (k : Nat) (m : Model) (id : String) :
    (m.draw k).resolve? id = m.resolve? id := rfl

end Model

end BlueprintPatch

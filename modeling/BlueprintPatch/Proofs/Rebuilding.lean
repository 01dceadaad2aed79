import BlueprintPatch.Proofs.Step
import BlueprintPatch.Proofs.Supply

/-! Rebuilding and links. Of a pin the links know its id and the ids that it lists. An operation
that rebuilds or adds nodes keeps some of the pins, drops others and makes new ones without links;
this module says which. -/
namespace BlueprintPatch

theorem perm_append_swap {α : Type} (xs ys xs' ys' : List α) :
    (xs ++ ys ++ (xs' ++ ys')).Perm (xs ++ xs' ++ (ys ++ ys')) := by
  rw [List.append_assoc, List.append_assoc]
  exact (List.perm_append_comm_assoc ys xs' ys').append_left xs

theorem map_eq_self {α : Type} {f : α → α} {as : List α} (h : ∀ a ∈ as, f a = a) :
    as.map f = as := by
  rw [List.map_congr_left h, List.map_id']

/-- A pin as the links see it. -/
structure Joint where
  id : String
  links : List String
deriving DecidableEq, Repr

def Pin.joint (p : Pin) : Joint := ⟨p.id, p.linkedTo⟩

def joints (ps : List Pin) : List Joint := ps.map Pin.joint

def Blueprint.pins (b : Blueprint) : List Pin := b.allNodes.flatMap (·.pins)

/-- The pins `made`, without links, by the numbers from `n` on and below `m`. -/
def Made (n m : Nat) (made : List Joint) : Prop :=
  ∃ numbers : List Nat, numbers.Nodup ∧ (∀ k ∈ numbers, n ≤ k ∧ k < m) ∧
    made = numbers.map fun k => ⟨generatedId k, []⟩

/-- The pins `t` become the pins `u`: all but `dropped` are kept, and the numbers from `n` on and
below `m` make new ones. -/
def Rebuilt (n m : Nat) (t dropped u : List Joint) : Prop :=
  ∃ kept made, t.Perm (kept ++ dropped) ∧ u.Perm (kept ++ made) ∧ Made n m made

namespace Rebuilt

variable {n m k : Nat} {t d u t' d' u' : List Joint}

theorem kept (n m : Nat) (t : List Joint) : Rebuilt n m t [] t :=
  ⟨t, [], by simp, by simp, [], by simp, by simp, rfl⟩

theorem dropped (n m : Nat) (t : List Joint) : Rebuilt n m t t [] :=
  ⟨[], [], by simp, by simp, [], by simp, by simp, rfl⟩

theorem made (n : Nat) : Rebuilt n (n + 1) [] [] [⟨generatedId n, []⟩] :=
  ⟨[], [⟨generatedId n, []⟩], by simp, by simp, [n], by simp, by simp, rfl⟩

theorem perm (h : Rebuilt n m t d u) (ht : t'.Perm t) (hd : d.Perm d') (hu : u'.Perm u) :
    Rebuilt n m t' d' u' := by
  obtain ⟨ks, ms, h₁, h₂, h₃⟩ := h
  exact ⟨ks, ms, (ht.trans h₁).trans (hd.append_left ks), hu.trans h₂, h₃⟩

theorem append (h : Rebuilt n m t d u) (h' : Rebuilt m k t' d' u') (hnm : n ≤ m) (hmk : m ≤ k) :
    Rebuilt n k (t ++ t') (d ++ d') (u ++ u') := by
  obtain ⟨ks, ms, h₁, h₂, ns, hnodup, hbound, rfl⟩ := h
  obtain ⟨ks', ms', h₁', h₂', ns', hnodup', hbound', rfl⟩ := h'
  refine ⟨ks ++ ks', _, (h₁.append h₁').trans (perm_append_swap ..),
    (h₂.append h₂').trans (perm_append_swap ..), ns ++ ns', ?_, ?_, (List.map_append ..).symm⟩
  · refine List.nodup_append.mpr ⟨hnodup, hnodup', fun a ha b hb hab => ?_⟩
    have h₁ := hbound a ha
    have h₂ := hbound' b hb
    omega
  · intro a ha
    rcases List.mem_append.mp ha with h | h
    · have hb := hbound a h
      omega
    · have hb := hbound' a h
      omega

end Rebuilt

/-- The old pins that are left when new pins after the specs have taken the places of others. -/
def leftOver (names : String → List String) : List PinSpec → List Pin → List Pin
  | [], olds => olds
  | s :: rest, olds =>
    match takeFirst? (Node.precedes (names s.name) (s.pin 0)) olds with
    | some (_, left) => leftOver names rest left
    | none => leftOver names rest olds

theorem newPins_cons (n : Nat) (s : PinSpec) (specs : List PinSpec) :
    newPins n (s :: specs) = s.pin n :: newPins (n + 1) specs := by
  simp only [newPins, List.mapIdx_cons, Nat.add_zero]
  congr 2
  funext i s
  rw [Nat.add_right_comm, Nat.add_assoc]

theorem rebuilt_newPins (n : Nat) (specs : List PinSpec) :
    Rebuilt n (n + specs.length) [] [] (joints (newPins n specs)) := by
  induction specs generalizing n with
  | nil => exact .kept _ _ _
  | cons s specs ih =>
    rw [newPins_cons]
    have h := (Rebuilt.made n).append (ih (n + 1)) (by omega) (by omega)
    rwa [List.length_cons, Nat.add_comm specs.length, ← Nat.add_assoc]

theorem rebuilt_carryOver (names : String → List String) (n : Nat) (specs : List PinSpec)
    (olds : List Pin) :
    Rebuilt n (n + specs.length) (joints olds) (joints (leftOver names specs olds))
      (joints (Node.carryOver names (newPins n specs) olds)) := by
  induction specs generalizing n olds with
  | nil => exact .dropped _ _ _
  | cons s specs ih =>
    have hlast : n + (s :: specs).length = n + 1 + specs.length := by
      simp only [List.length_cons]
      omega
    have hprecedes : Node.precedes (names s.name) (s.pin n) =
        Node.precedes (names s.name) (s.pin 0) := rfl
    rw [newPins_cons, hlast]
    unfold Node.carryOver leftOver
    rw [show (s.pin n).name = s.name from rfl, hprecedes]
    cases htake : takeFirst? (Node.precedes (names s.name) (s.pin 0)) olds with
    | some r =>
      have hperm : (joints olds).Perm (r.1.joint :: joints r.2) :=
        (perm_of_takeFirst? htake).map Pin.joint
      exact ((Rebuilt.kept n (n + 1) [r.1.joint]).append (ih (n + 1) r.2) (by omega)
        (by omega)).perm hperm (.refl _) (.refl _)
    | none => exact (Rebuilt.made n).append (ih (n + 1) olds) (by omega) (by omega)

/-- The pins that a node loses when it comes to refer to `new` instead of `old`. -/
def Node.lost (valueType old new : String) (x : Node) : List Pin :=
  if Blueprint.refersTo old x then
    match x.kind.pinSpecs? new valueType with
    | some specs => leftOver (formerNames (some new) (some old)) specs x.pins
    | none => []
  else []

theorem NodeKind.exists_pinSpecs {kind : NodeKind} (h : kind ≠ .generic)
    (member valueType : String) : ∃ specs, kind.pinSpecs? member valueType = some specs := by
  cases kind with
  | generic => exact absurd rfl h
  | _ => exact ⟨_, rfl⟩

theorem Node.reconstruct_of_specs {x : Node} {valueType : String} {specs : List PinSpec}
    (h : x.kind.pinSpecs? (x.memberName.getD "") valueType = some specs) (previous : Option String)
    (n : Nat) :
    x.reconstruct valueType previous n = { x with
      pins := carryOver (formerNames x.memberName previous) (newPins n specs) x.pins } := by
  have hkind : x.kind ≠ .generic := by
    intro he
    rw [he] at h
    cases h
  simp only [reconstruct, hkind, if_false, allocate, h]

theorem pinCost_eq {x : Node} {member valueType : String} {specs : List PinSpec}
    (h : x.kind.pinSpecs? member valueType = some specs) : Blueprint.pinCost x = specs.length := by
  unfold Blueprint.pinCost
  cases hk : x.kind <;> rw [hk] at h <;> cases h <;> rfl

theorem rebuilt_rewireNode (valueType old new : String) (n : Nat) (x : Node) :
    Rebuilt n (n + Blueprint.rewireCost old x) (joints x.pins) (joints (x.lost valueType old new))
      (joints (Blueprint.rewireNode valueType old new n x).pins) := by
  unfold Blueprint.rewireNode Blueprint.rewireCost Node.lost
  by_cases hrefers : Blueprint.refersTo old x
  · simp only [hrefers, if_true]
    cases hspecs : x.kind.pinSpecs? new valueType with
    | some specs =>
      rw [pinCost_eq hspecs,
        Node.reconstruct_of_specs (x := { x with memberName := some new }) hspecs]
      exact rebuilt_carryOver _ n specs x.pins
    | none =>
      have hkind : x.kind = .generic := by
        cases hk : x.kind <;> simp [hk, NodeKind.pinSpecs?] at hspecs ⊢
      simp only [Node.reconstruct, hkind, if_true]
      exact .kept _ _ _
  · simp only [hrefers]
    exact .kept _ _ _

theorem rebuilt_rewireNodes (valueType old new : String) (n : Nat) (xs : List Node) :
    Rebuilt n (n + total (xs.map (Blueprint.rewireCost old))) (joints (xs.flatMap (·.pins)))
      (joints (xs.flatMap (Node.lost valueType old new)))
      (joints ((Blueprint.rewireNodes valueType old new n xs).flatMap (·.pins))) := by
  induction xs generalizing n with
  | nil => exact .kept _ _ _
  | cons x xs ih =>
    have h := (rebuilt_rewireNode valueType old new n x).append
      (ih (n + Blueprint.rewireCost old x)) (by omega) (by omega)
    simpa [Blueprint.rewireNodes, joints, total, Nat.add_assoc] using h

theorem rebuilt_rewireGraphs (valueType old new : String) (n : Nat) (gs : List Graph) :
    Rebuilt n (n + total (gs.map (Blueprint.graphCost old)))
      (joints ((gs.flatMap (·.nodes)).flatMap (·.pins)))
      (joints ((gs.flatMap (·.nodes)).flatMap (Node.lost valueType old new)))
      (joints (((Blueprint.rewireGraphs valueType old new n gs).flatMap (·.nodes)).flatMap
        (·.pins))) := by
  induction gs generalizing n with
  | nil => exact .kept _ _ _
  | cons g gs ih =>
    have h := (rebuilt_rewireNodes valueType old new n g.nodes).append
      (ih (n + Blueprint.graphCost old g)) (by omega) (by simp only [Blueprint.graphCost]; omega)
    simpa [Blueprint.rewireGraphs, joints, total, Nat.add_assoc] using h

/-- The pins that the rename drops when it rebuilds the nodes that refer to the variable. -/
def VariableRename.dropped (op : VariableRename) (b : Blueprint) : List Pin :=
  b.allNodes.flatMap (Node.lost
    ((b.renameVariable op.oldName op.newName).valueType op.newName) op.oldName op.newName)

theorem VariableRename.rebuilt (op : VariableRename) (n : Nat) (b : Blueprint) :
    Rebuilt n (n + b.rewiringCost op.oldName) (joints b.pins) (joints (op.dropped b))
      (joints (op.rename n b).pins) :=
  rebuilt_rewireGraphs _ op.oldName op.newName n b.graphs

theorem perm_appendNode {p : Graph → Bool} {gs : List Graph} (h : gs.any p) (x : Node) :
    ((Blueprint.appendNode p x gs).flatMap (·.nodes)).Perm (gs.flatMap (·.nodes) ++ [x]) := by
  induction gs with
  | nil => simp at h
  | cons g gs ih =>
    by_cases hg : p g
    · simp only [Blueprint.appendNode, hg, if_true, List.flatMap_cons, List.append_assoc]
      exact List.perm_append_comm.append_left g.nodes
    · have h' : gs.any p := by simpa [hg] using h
      simp only [Blueprint.appendNode, hg, List.flatMap_cons, List.append_assoc]
      exact (ih h').append_left g.nodes

theorem NodeAdd.pins_node (op : NodeAdd) (t : NodeKind × String) (n : Nat) (b : Blueprint) :
    ∃ specs, (op.node t n b).pins = newPins (n + 1) specs := by
  rw [node, Blueprint.newNode_eq]
  exact ⟨_, rfl⟩

theorem NodeAdd.rebuilt (op : NodeAdd) (t : NodeKind × String) (n : Nat) {b : Blueprint}
    (h : b.hasGraph op.graph) :
    Rebuilt n (n + (1 + (op.node t n b).pins.length)) (joints b.pins) []
      (joints (op.add (op.node t n b) b).pins) := by
  obtain ⟨specs, hspecs⟩ := op.pins_node t n b
  have hperm : (op.add (op.node t n b) b).pins.Perm (b.pins ++ (op.node t n b).pins) := by
    have h' := (perm_appendNode (p := (·.name = op.graph)) h (op.node t n b)).flatMap_right
      (·.pins)
    rw [List.flatMap_append, List.flatMap_singleton] at h'
    exact h'
  have hnew := (Rebuilt.kept n (n + 1) (joints b.pins)).append (rebuilt_newPins (n + 1) specs)
    (by omega) (by omega)
  rw [← Nat.add_assoc, hspecs, length_newPins]
  refine hnew.perm ?_ (.refl _) ?_
  · simp
  · have h' := hperm.map Pin.joint
    rwa [hspecs, List.map_append] at h'

end BlueprintPatch

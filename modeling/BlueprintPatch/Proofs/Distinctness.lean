import BlueprintPatch.Proofs.DryRun
import BlueprintPatch.Proofs.Links
import BlueprintPatch.Proofs.Naming
import BlueprintPatch.Proofs.Reachable
import BlueprintPatch.Proofs.Requests

/-! Distinct names and ids. In a blueprint no two variables and no two nodes have one name, and no
two nodes or pins have one id. Patches keep it so, and so do undoing and redoing, as long as the
supply gives no id that is in use or may come back from the history. -/
namespace BlueprintPatch

/-- No id with a number from `n` on is among them. -/
def Unused (n : Nat) (ids : List String) : Prop := ∀ id ∈ ids, ¬ IsGeneratedFrom n id

/-- The ids `t` become the ids `u`: some are kept, and the numbers from `n` on and below `m` make
new ones. -/
def Renewed (n m : Nat) (t u : List String) : Prop :=
  ∃ (kept dropped : List String) (numbers : List Nat), t.Perm (kept ++ dropped) ∧
    u.Perm (kept ++ numbers.map generatedId) ∧ numbers.Nodup ∧ ∀ k ∈ numbers, n ≤ k ∧ k < m

theorem Unused.mono {n m : Nat} {ids : List String} (h : Unused n ids) (hnm : n ≤ m) :
    Unused m ids :=
  fun id hid hg => h id hid (isGeneratedFrom_mono hnm hg)

namespace Renewed

variable {n m : Nat} {t u : List String}

theorem of_perm {dropped : List String} (h : t.Perm (u ++ dropped)) : Renewed n m t u :=
  ⟨u, dropped, [], h, by simp, List.nodup_nil, by simp⟩

theorem of_rebuilt {t d u : List Joint} (h : Rebuilt n m t d u) :
    Renewed n m (t.map (·.id)) (u.map (·.id)) := by
  obtain ⟨kept, made, ht, hu, numbers, hnodup, hbound, rfl⟩ := h
  refine ⟨kept.map (·.id), d.map (·.id), numbers, ?_, ?_, hnodup, hbound⟩
  · rw [← List.map_append]
    exact ht.map _
  · have hu' := hu.map (·.id)
    rwa [List.map_append, List.map_map] at hu'

theorem beside (s : List String) (h : Renewed n m t u) : Renewed n m (s ++ t) (s ++ u) := by
  obtain ⟨kept, dropped, numbers, ht, hu, hnodup, hbound⟩ := h
  refine ⟨s ++ kept, dropped, numbers, ?_, ?_, hnodup, hbound⟩
  · rw [List.append_assoc]
    exact ht.append_left s
  · rw [List.append_assoc]
    exact hu.append_left s

theorem nodup (h : Renewed n m t u) (ht : t.Nodup) (hunused : Unused n t) : u.Nodup := by
  obtain ⟨kept, dropped, numbers, htk, huk, hnodup, hbound⟩ := h
  have hold : kept.Nodup := (List.nodup_append.mp (htk.nodup_iff.mp ht)).1
  have hnew : (numbers.map generatedId).Nodup :=
    List.pairwise_map.mpr (hnodup.imp fun hne he => hne (generatedId_inj he))
  rw [huk.nodup_iff]
  refine List.nodup_append.mpr ⟨hold, hnew, fun a ha b hb hab => ?_⟩
  obtain ⟨k, hk, rfl⟩ := List.mem_map.mp hb
  have hmem : a ∈ t := htk.mem_iff.mpr (List.mem_append_left _ ha)
  exact hunused a hmem ⟨k, (hbound k hk).1, hab⟩

theorem unused (h : Renewed n m t u) (hnm : n ≤ m) (hunused : Unused n t) : Unused m u := by
  obtain ⟨kept, dropped, numbers, htk, huk, hnodup, hbound⟩ := h
  intro id hid
  rcases List.mem_append.mp (huk.mem_iff.mp hid) with hkept | hnew
  · exact hunused.mono hnm id (htk.mem_iff.mpr (List.mem_append_left _ hkept))
  · obtain ⟨k, hk, rfl⟩ := List.mem_map.mp hnew
    exact not_isGeneratedFrom_generatedId (hbound k hk).2

end Renewed

theorem ids_newPins (n : Nat) (specs : List PinSpec) :
    (newPins n specs).map (·.id) = (List.range' n specs.length).map generatedId := by
  induction specs generalizing n with
  | nil => rfl
  | cons s specs ih =>
    rw [newPins_cons, List.map_cons, ih, List.length_cons, List.range'_succ, List.map_cons]
    rfl

def Blueprint.ids (b : Blueprint) : List String := b.allNodes.map (·.guid) ++ b.pins.map (·.id)

structure Blueprint.Distinct (b : Blueprint) : Prop where
  members : (b.members.map (·.name)).Nodup
  nodes : (b.allNodes.map (·.name)).Nodup
  ids : b.ids.Nodup

theorem allNodes_removeNode? {p : Node → Bool} {b c : Blueprint} (h : b.removeNode? p = some c) :
    ∃ x rest, b.allNodes.Perm (x :: rest) ∧
      ∀ {β : Type} (f : Node → β), (∀ y ps, f { y with pins := ps } = f y) →
        c.allNodes.map f = rest.map f := by
  obtain ⟨⟨x, left⟩, htake, rfl⟩ := Option.map_eq_some_iff.mp h
  refine ⟨x, _, perm_of_takeNode? htake, fun f hf => ?_⟩
  simp only [Blueprint.allNodes, List.flatMap_map, List.map_flatMap, Blueprint.mapPins,
    List.map_map, Function.comp_def, hf]

theorem map_id_joints (ps : List Pin) : (joints ps).map (·.id) = ps.map (·.id) := by
  rw [joints, List.map_map]
  rfl

theorem renewed_rename (r : VariableRename) (n : Nat) (b : Blueprint) :
    Renewed n (n + b.rewiringCost r.oldName) b.ids (r.rename n b).ids := by
  have hguids : (r.rename n b).allNodes.map (·.guid) = b.allNodes.map (·.guid) :=
    map_rewireGraphs (fun _ _ _ => rfl) _ _ _ n b.graphs
  have hpins := Renewed.of_rebuilt (r.rebuilt n b)
  rw [map_id_joints, map_id_joints] at hpins
  rw [Blueprint.ids, Blueprint.ids, hguids]
  exact hpins.beside _

section

variable {b c : Blueprint}

theorem perm_allNodes_add (a : NodeAdd) (x : Node) (hgraph : b.hasGraph a.graph) :
    (a.add x b).allNodes.Perm (b.allNodes ++ [x]) :=
  perm_appendNode hgraph x

theorem label_node (a : NodeAdd) (t : NodeKind × String) (n : Nat) (b : Blueprint) :
    (a.node t n b).name = b.freshNodeName t.1 ∧ (a.node t n b).guid = generatedId n := by
  rw [NodeAdd.node, Blueprint.newNode_eq]
  exact ⟨rfl, rfl⟩

theorem renewed_add (a : NodeAdd) (t : NodeKind × String) (n : Nat) (hgraph : b.hasGraph a.graph) :
    Renewed n (n + (1 + (a.node t n b).pins.length)) b.ids (a.add (a.node t n b) b).ids := by
  obtain ⟨specs, hspecs⟩ := a.pins_node t n b
  have hguid : (a.node t n b).guid = generatedId n := (label_node a t n b).2
  have hnodes := perm_allNodes_add a (a.node t n b) hgraph
  have hguids := hnodes.map (·.guid)
  have hpins := (hnodes.flatMap_right (·.pins)).map (·.id)
  simp only [List.map_append, List.flatMap_append, List.flatMap_singleton, List.map_singleton,
    hspecs, ids_newPins, hguid] at hguids hpins
  refine ⟨b.ids, [], n :: List.range' (n + 1) specs.length, by simp, ?_, ?_, ?_⟩
  · exact (hguids.append hpins).trans (perm_append_swap _ [generatedId n] _ _)
  · rw [List.nodup_cons, List.mem_range'_1]
    exact ⟨by omega, List.nodup_range'⟩
  · intro k hk
    rw [hspecs, length_newPins]
    rcases List.mem_cons.mp hk with rfl | hk
    · omega
    · have hbound := List.mem_range'_1.mp hk
      omega

theorem renewed_delete {p : Node → Bool} (n : Nat) (h : b.removeNode? p = some c) :
    Renewed n n b.ids c.ids := by
  obtain ⟨x, rest, hnodes, hrest⟩ := allNodes_removeNode? h
  obtain ⟨gone, left, hpins, hleft⟩ := joints_removeNode? h
  have hguids : (b.allNodes.map (·.guid)).Perm (x.guid :: c.allNodes.map (·.guid)) := by
    rw [hrest _ fun _ _ => rfl]
    exact hnodes.map _
  have hids : (b.pins.map (·.id)).Perm (gone.map (·.id) ++ c.pins.map (·.id)) := by
    have hold := hpins.map (·.id)
    have hnew : c.pins.map (·.id) = left.map (·.id) := by
      rw [← map_id_joints, hleft, List.map_map]
      rfl
    rwa [map_id_joints, List.map_append, ← hnew] at hold
  have hold : b.ids.Perm
      ((x.guid :: c.allNodes.map (·.guid)) ++ (gone.map (·.id) ++ c.pins.map (·.id))) :=
    hguids.append hids
  have hdropped : b.ids.Perm (c.ids ++ (x.guid :: gone.map (·.id))) :=
    hold.trans ((perm_append_swap [x.guid] _ _ _).trans List.perm_append_comm)
  exact .of_perm hdropped

end

section

variable {op : Operation} {n k : Nat} {b c : Blueprint}

theorem renewed_change (h : op.change n b = some (c, k)) : Renewed n (n + k) b.ids c.ids := by
  rcases Operation.change_cases h with
    ⟨r, -, -, rfl, rfl⟩ | ⟨a, t, -, hgraph, -, rfl, rfl⟩ | ⟨d, left, -, hleft, rfl, rfl⟩
  · exact renewed_rename r n b
  · exact renewed_add a t n hgraph
  · exact (renewed_delete n hleft : Renewed n n b.ids left.ids)

theorem nodup_nodes_change (h : op.change n b = some (c, k))
    (hb : (b.allNodes.map (·.name)).Nodup) : (c.allNodes.map (·.name)).Nodup := by
  rcases Operation.change_cases h with
    ⟨r, -, -, rfl, -⟩ | ⟨a, t, -, hgraph, -, rfl, -⟩ | ⟨d, left, -, hleft, rfl, -⟩
  · have hsame : (r.rename n b).allNodes.map (·.name) = b.allNodes.map (·.name) :=
      map_rewireGraphs (fun _ _ _ => rfl) _ _ _ n b.graphs
    rwa [hsame]
  · have hnames := (perm_allNodes_add a (a.node t n b) hgraph).map (·.name)
    rw [List.map_append, List.map_singleton, (label_node a t n b).1] at hnames
    rw [(hnames.trans List.perm_append_comm).nodup_iff]
    exact List.nodup_cons.mpr ⟨b.freshNodeName_not_mem t.1, hb⟩
  · obtain ⟨x, rest, hnodes, hrest⟩ := allNodes_removeNode? hleft
    have hsame : left.markModified.allNodes.map (·.name) = rest.map (·.name) :=
      hrest _ fun _ _ => rfl
    rw [hsame]
    exact (List.nodup_cons.mp ((hnodes.map (·.name)).nodup_iff.mp hb)).2

theorem Blueprint.Distinct.change (hb : b.Distinct) (hunused : Unused n b.ids)
    (h : op.change n b = some (c, k)) : c.Distinct ∧ Unused (n + k) c.ids :=
  have hids := renewed_change h
  ⟨⟨nodup_names_of_change h hb.members, nodup_nodes_change h hb.nodes,
    hids.nodup hb.ids hunused⟩, hids.unused (Nat.le_add_right n k) hunused⟩

end

/-- All blueprints are distinct in themselves and no id with a number from `n` on is in use. -/
def Settled (n : Nat) (s : Snapshot) : Prop := ∀ b ∈ s, b.Distinct ∧ Unused n b.ids

theorem Settled.mono {n m : Nat} {s : Snapshot} (h : Settled n s) (hnm : n ≤ m) : Settled m s :=
  fun b hb => ⟨(h b hb).1, (h b hb).2.mono hnm⟩

theorem Settled.step {op : Operation} {m m' : Model} {b c : Blueprint} {k : Nat}
    (h : Settled m.next m.loaded) (hleads : op.Leads m m' b c k) : Settled m'.next m'.loaded := by
  obtain ⟨hb, hunused⟩ := h b (Model.mem_of_resolve? hleads.resolved)
  rw [hleads.result]
  exact Model.forall_loaded_update (hb.change hunused hleads.changed)
    (h.mono (Nat.le_add_right m.next k))

theorem Settled.runInTurn {ops : List RawOperation} {m m' : Model} (h : Settled m.next m.loaded)
    (hrun : runInTurn ops m = .ok m') : Settled m'.next m'.loaded :=
  runInTurn_induction (P := fun m => Settled m.next m.loaded)
    (fun hm hleads => hm.step hleads) h hrun

/-- The present state and all that undoing and redoing can lead to. -/
def Engine.states (e : Engine) : List Snapshot :=
  e.model.loaded :: (e.history.done ++ e.history.undone).flatMap fun x => [x.before, x.after]

theorem mem_states {e : Engine} {s : Snapshot} :
    s ∈ e.states ↔ s = e.model.loaded ∨
      ∃ x, (x ∈ e.history.done ∨ x ∈ e.history.undone) ∧ (s = x.before ∨ s = x.after) := by
  simp [Engine.states, or_and_right, exists_or]

theorem mem_done_record {h : History} {x y : Entry} (hy : y ∈ (h.record x).done) :
    y = x ∨ y ∈ h.done := by
  have hmem : y ∈ x :: h.done := by
    simp only [History.record] at hy
    split at hy
    · exact List.dropLast_subset _ hy
    · exact hy
  exact List.mem_cons.mp hmem

/-- Every state of the engine is settled. -/
def Engine.Settled (e : Engine) : Prop := ∀ s ∈ e.states, BlueprintPatch.Settled e.model.next s

namespace Engine.Settled

variable {e e' : Engine}

theorem now (h : e.Settled) : BlueprintPatch.Settled e.model.next e.model.loaded :=
  h _ (mem_states.mpr (.inl rfl))

/-- The entries are old ones, but for that of a patch that has been committed. -/
theorem entry_cases {x : Effect} (hchange : Change e e' x) {y : Entry}
    (hy : y ∈ e'.history.done ∨ y ∈ e'.history.undone) :
    y = ⟨e.label, e.model.loaded, e'.model.loaded⟩ ∨
      (y ∈ e.history.done ∨ y ∈ e.history.undone) := by
  cases hchange with
  | committed ops hne hrun hrecord =>
    rw [hrecord] at hy
    rcases hy with hy | hy
    · exact (mem_done_record hy).imp_right .inl
    · exact absurd hy List.not_mem_nil
  | undone z rest hdone hmodel hhistory =>
    rw [hhistory] at hy
    rcases hy with hy | hy
    · exact .inr (.inl (by rw [hdone]; exact List.mem_cons_of_mem z hy))
    · rcases List.mem_cons.mp hy with rfl | hy
      · exact .inr (.inl (by rw [hdone]; exact List.mem_cons_self))
      · exact .inr (.inr hy)
  | redone z rest hundone hmodel hhistory =>
    rw [hhistory] at hy
    rcases hy with hy | hy
    · rcases List.mem_cons.mp hy with rfl | hy
      · exact .inr (.inr (by rw [hundone]; exact List.mem_cons_self))
      · exact .inr (.inl hy)
    · exact .inr (.inr (by rw [hundone]; exact List.mem_cons_of_mem z hy))
  | kept hloaded hnext hhistory =>
    rw [hhistory] at hy
    exact .inr hy

/-- A change leads to one state at most that the engine did not have. -/
theorem states_subset {x : Effect} (hchange : Change e e' x) {s : Snapshot} (hs : s ∈ e'.states) :
    s = e'.model.loaded ∨ s ∈ e.states := by
  rcases mem_states.mp hs with hnow | ⟨y, hy, hs⟩
  · exact .inl hnow
  · rcases entry_cases hchange hy with rfl | hold
    · exact hs.symm.imp_right fun hs => mem_states.mpr (.inl hs)
    · exact .inr (mem_states.mpr (.inr ⟨y, hold, hs⟩))

theorem change {x : Effect} (h : e.Settled) (hchange : Change e e' x) : e'.Settled := by
  have hnow : e.model.next ≤ e'.model.next ∧
      BlueprintPatch.Settled e'.model.next e'.model.loaded := by
    cases hchange with
    | committed ops hne hrun hrecord => exact ⟨next_le_runInTurn hrun, h.now.runInTurn hrun⟩
    | undone z rest hdone hmodel hhistory =>
      rw [hmodel]
      exact ⟨Nat.le_refl _, h _ (mem_states.mpr (.inr ⟨z, .inl (by simp [hdone]), .inl rfl⟩))⟩
    | redone z rest hundone hmodel hhistory =>
      rw [hmodel]
      exact ⟨Nat.le_refl _, h _ (mem_states.mpr (.inr ⟨z, .inr (by simp [hundone]), .inr rfl⟩))⟩
    | kept hloaded hnext hhistory =>
      rw [hloaded]
      exact ⟨hnext, h.now.mono hnext⟩
  intro s hs
  rcases states_subset hchange hs with rfl | hs
  · exact hnow.2
  · exact (h s hs).mono hnow.1

end Engine.Settled

/-- Names and ids stay distinct in the model, and in whatever the history may bring back, after any
patches, undoing and redoing. -/
theorem distinct_serveAll {σ : Type} {sink : Sink σ} (hsink : Discreet sink) (e : Engine) (s : σ)
    (calls : List EngineRequest) (he : e.AtRest) (hdistinct : ∀ t ∈ e.states, ∀ b ∈ t, b.Distinct)
    (hunused : ∀ t ∈ e.states, ∀ b ∈ t, ∀ k, e.model.next ≤ k → generatedId k ∉ b.ids) :
    let e' := (serveAll sink calls e s).1
    (∀ b ∈ e'.model.loaded, b.Distinct) ∧ ∀ t ∈ e'.states, ∀ b ∈ t, b.Distinct := by
  intro e'
  have hstart : e.Settled := by
    intro t ht b hb
    refine ⟨hdistinct t ht b hb, fun id hid hg => ?_⟩
    obtain ⟨k, hk, rfl⟩ := hg
    exact hunused t ht b hb k hk hid
  have hsettled : e'.Settled :=
    serveAll_induction hsink (fun _ _ _ h hchange => h.change hchange) calls s he hstart
  exact ⟨fun b hb => (hsettled.now b hb).1, fun t ht b hb => (hsettled t ht b hb).1⟩

set_option maxRecDepth 4000 in
/-- The node of the lamp is replaced, put back and replaced again. -/
theorem distinct_serveAll_lamp :
    let e := (serveAll silentSink [.apply replaceN, .undo, .redo] lampEngine ()).1
    Discreet silentSink ∧ lampEngine.AtRest ∧ (∀ t ∈ lampEngine.states, ∀ b ∈ t, b.Distinct) ∧
    e.history.done.length = 1 ∧ e.states.length = 3 ∧ ∀ t ∈ e.states, ∀ b ∈ t, b.Distinct := by
  intro e
  have hdistinct : ∀ t ∈ lampEngine.states, ∀ b ∈ t, b.Distinct := by
    intro t ht b hb
    obtain rfl := List.mem_singleton.mp ht
    obtain rfl := List.mem_singleton.mp hb
    exact ⟨by decide, by decide, by decide⟩
  have hunused : ∀ t ∈ lampEngine.states, ∀ b ∈ t, ∀ k, lampEngine.model.next ≤ k →
      generatedId k ∉ b.ids := by
    intro t ht b hb k _ hmem
    obtain rfl := List.mem_singleton.mp ht
    obtain rfl := List.mem_singleton.mp hb
    have hshort : ∀ id ∈ ["G", "P"], id.length ≤ 31 := by decide
    exact absurd (lt_length_generatedId k) (Nat.not_lt.mpr (hshort _ hmem))
  obtain ⟨-, hall⟩ := distinct_serveAll discreet_silentSink lampEngine ()
    [.apply replaceN, .undo, .redo] (Engine.atRest_new _ _ _) hdistinct hunused
  exact ⟨discreet_silentSink, Engine.atRest_new _ _ _, hdistinct, rfl, rfl, hall⟩

end BlueprintPatch

import BlueprintPatch.Proofs.Adding
import BlueprintPatch.Proofs.Deleting

/-! An addition taken back. The node that an addition puts at the end of a graph is the first to
answer to its name, and nobody is linked to its pins; so the deletion of that name takes out this
node and changes nothing else, and the name is free again. -/
namespace BlueprintPatch

theorem Pin.unlink_eq_self {ids : List String} {p : Pin} (h : ∀ id ∈ p.linkedTo, id ∉ ids) :
    p.unlink ids = p := by
  rw [unlink, List.filter_eq_self.mpr (by simpa using h)]

theorem Blueprint.mapPins_unlink_eq_self {ids : List String} {g : Graph}
    (h : ∀ x ∈ g.nodes, ∀ p ∈ x.pins, ∀ id ∈ p.linkedTo, id ∉ ids) :
    mapPins (Pin.unlink ids) g = g := by
  have hnode : ∀ x ∈ g.nodes, { x with pins := x.pins.map (Pin.unlink ids) } = x := by
    intro x hx
    rw [map_eq_self fun p hp => Pin.unlink_eq_self (h x hx p hp)]
  rw [mapPins, map_eq_self hnode]

theorem takeNode?_appendNode {p : Graph → Bool} {q : Node → Bool} {x : Node} {gs : List Graph}
    (hp : gs.any p = true) (hx : q x = true)
    (hother : ∀ y ∈ gs.flatMap (·.nodes), ¬ q y = true) :
    takeNode? q (Blueprint.appendNode p x gs) = some (x, gs) := by
  induction gs with
  | nil => simp at hp
  | cons g gs ih =>
    rw [List.flatMap_cons, List.forall_mem_append] at hother
    by_cases hg : p g
    · have htake : takeFirst? q (g.nodes ++ [x]) = some (x, g.nodes) := by
        rw [takeFirst?_append hother.1 hx, List.append_nil]
      rw [Blueprint.appendNode, if_pos hg, takeNode?, htake]
    · have hrest : gs.any p = true := by simpa [hg] using hp
      have htake : takeFirst? q g.nodes = none := by
        rw [takeFirst?_eq, List.find?_eq_none.mpr hother.1, Option.map_none]
      rw [Blueprint.appendNode, if_neg hg, takeNode?, htake, ih hrest hother.2, Option.map_some]

/-- To add a node and to remove it leaves nothing but a mark. -/
theorem Blueprint.removeNode?_add {add : NodeAdd} {q : Node → Bool} {x : Node} {b : Blueprint}
    (hgraph : b.hasGraph add.graph = true) (hx : q x = true)
    (hother : ∀ y ∈ b.allNodes, ¬ q y = true)
    (hlinks : ∀ p ∈ b.pins, ∀ id ∈ p.linkedTo, id ∉ x.pins.map (·.id)) :
    (add.add x b).removeNode? q = some b.markModified := by
  have htake : takeNode? q (add.add x b).graphs = some (x, b.graphs) :=
    takeNode?_appendNode hgraph hx hother
  have hgraphs : b.graphs.map (mapPins (Pin.unlink (x.pins.map (·.id)))) = b.graphs :=
    map_eq_self fun g hg => mapPins_unlink_eq_self fun y hy p hp =>
      hlinks p (List.mem_flatMap.mpr ⟨y, List.mem_flatMap.mpr ⟨g, hg, hy⟩, hp⟩)
  unfold removeNode?
  rw [htake, Option.map_some]
  simp only [hgraphs]
  rfl

/-- The blueprint, marked as modified twice more. -/
def Blueprint.markedTwice (b : Blueprint) : Blueprint :=
  { b with modified := true, modificationCount := b.modificationCount + 2 }

theorem Blueprint.markModified_markModified (b : Blueprint) :
    b.markModified.markModified = b.markedTwice := by
  simp only [markModified, markedTwice, Int.add_assoc]
  rfl

variable {m m₁ : Model} {b b₁ : Blueprint}

theorem Model.resolve?_congr {m' : Model} (h : m.loaded = m'.loaded) (id : String) :
    m.resolve? id = m'.resolve? id := by
  unfold resolve?
  rw [h]

theorem Model.resolve?_of_update {id : String} {c : Blueprint} (hm : m.Coherent)
    (hb : m.resolve? id = some b) (hbc : SameIdentity b c) :
    (m.update c).resolve? id = some c := by
  rw [resolve?_update hm (mem_of_resolve? hb) hbc, hb, Option.map_some,
    supplant_of_eq hbc.handle.symm]

theorem Model.loaded_update_map (hm : m.Coherent) (hb : b ∈ m.loaded) {f : Blueprint → Blueprint}
    (hf : (f b).handle = b.handle) :
    (m.update (f b)).loaded = m.loaded.map fun c => if c.handle = b.handle then f c else c := by
  rw [loaded_update]
  refine List.map_congr_left fun c hc => ?_
  rw [supplant, hf]
  split
  · next he => rw [hm c hc b hb he]
  · rfl

/-- What an addition puts into its blueprint: one node, with the first free name of the kind. -/
theorem NodeAdd.node_of_apply {add : NodeAdd} {summary : String} (hm : m.Coherent)
    (hadd : add.apply m = .ok (m₁, summary)) (hb : m.resolve? add.header.blueprint = some b) :
    ∃ t, add.kind? = some t.1 ∧ b.hasGraph add.graph = true ∧
      m₁.resolve? add.header.blueprint = some (add.add (add.node t m.next b) b) ∧
      m₁ = (m.update (add.add (add.node t m.next b) b)).draw
        (1 + (add.node t m.next b).pins.length) ∧
      (add.node t m.next b).name = b.freshNodeName t.1 ∧
      summary = "Added " ++ b.freshNodeName t.1 := by
  obtain ⟨c, hc, hgraph, t, ht, rfl, rfl⟩ := apply_eq_ok_iff.mp hadd
  obtain rfl := Option.some.inj (hb.symm.trans hc)
  have hname := (label_node add t m.next b).1
  exact ⟨t, kind?_of_target ht, hgraph, Model.resolve?_of_update hm hb ⟨rfl, rfl, rfl⟩, rfl, hname,
    by rw [hname]⟩

theorem NodeAdd.returns_iff {add : NodeAdd} (hb : m.resolve? add.header.blueprint = some b) :
    (∃ r, add.apply m = .ok r) ↔ b.hasGraph add.graph = true ∧ ∃ t, add.target? = some t := by
  constructor
  · rintro ⟨⟨m', summary⟩, h⟩
    obtain ⟨c, hc, hgraph, t, ht, -, -⟩ := apply_eq_ok_iff.mp h
    obtain rfl := Option.some.inj (hb.symm.trans hc)
    exact ⟨hgraph, t, ht⟩
  · rintro ⟨hgraph, t, ht⟩
    exact ⟨⟨_, _⟩, apply_eq_ok_iff.mpr ⟨b, hb, hgraph, t, ht, rfl, rfl⟩⟩

/-- After an addition the deletion of the name that the node got succeeds, and the model is as it
was before, but that the blueprint is marked twice more. -/
theorem NodeAdd.delete_returns {add : NodeAdd} {x : Node} {delete : NodeDelete} (hm : m.Coherent)
    (hgraph : b.hasGraph add.graph = true) (hb : m.resolve? delete.header.blueprint = some b)
    (hname : delete.nodeId = x.name) (hnames : x.name ∉ b.allNodes.map (·.name))
    (hguids : ∀ y ∈ b.allNodes, y.guid ≠ x.name)
    (hlinks : ∀ p ∈ b.pins, ∀ id ∈ p.linkedTo, id ∉ x.pins.map (·.id)) (k : Nat) :
    ∃ m₂, delete.apply ((m.update (add.add x b)).draw k) = .ok (m₂, "Deleted " ++ x.name) ∧
      m₂.Coherent ∧ m₂.loaded = (m.update b.markedTwice).loaded := by
  have hanswers : x.answersTo delete.nodeId = true := by simp [Node.answersTo, hname]
  have hother : ∀ y ∈ b.allNodes, ¬ y.answersTo delete.nodeId = true := by
    intro y hy
    have hfresh : y.name ≠ x.name := fun he => hnames (he ▸ List.mem_map_of_mem hy)
    simp [Node.answersTo, hname, hfresh, hguids y hy]
  have hresolve : (m.update (add.add x b)).resolve? delete.header.blueprint = _ :=
    Model.resolve?_of_update hm hb ⟨rfl, rfl, rfl⟩
  have hremove := Blueprint.removeNode?_add hgraph hanswers hother hlinks
  refine ⟨_, NodeDelete.apply_eq_ok_iff.mpr ⟨_, hresolve, _, hremove, rfl, by rw [hname]⟩,
    Model.coherent_update _ (Model.coherent_draw k (Model.coherent_update _ hm)), ?_⟩
  have hhandle : (add.add x b).handle = b.markedTwice.handle := rfl
  rw [Blueprint.markModified_markModified]
  exact Model.loaded_update_update hhandle k m

/-- An addition is undone by the deletion of the name that its node got, if no other node has this
name as its guid and no pin is linked to an id of its pins: the loaded blueprints are then what they
were, but for the mark of this one. The next node of the kind gets the same name. -/
theorem delete_undoes_add {add : NodeAdd} {summary : String} (hm : m.Coherent)
    (hadd : add.apply m = .ok (m₁, summary)) (hb : m.resolve? add.header.blueprint = some b)
    (hb₁ : m₁.resolve? add.header.blueprint = some b₁) :
    (∃ x ∈ b₁.allNodes, x ∉ b.allNodes) ∧
    ∀ x ∈ b₁.allNodes, x ∉ b.allNodes →
      summary = "Added " ++ x.name ∧
      ((∀ y ∈ b.allNodes, y.guid ≠ x.name) →
        (∀ p ∈ b.pins, ∀ id ∈ p.linkedTo, id ∉ x.pins.map (·.id)) →
        ∀ delete : NodeDelete, m.resolve? delete.header.blueprint = some b →
          delete.nodeId = x.name →
          ∃ m₂, delete.apply m₁ = .ok (m₂, "Deleted " ++ x.name) ∧
            m₂.loaded = m.loaded.map (fun c => if c.handle = b.handle then
              { c with modified := true, modificationCount := c.modificationCount + 2 } else c) ∧
            ∀ again : NodeAdd, m.resolve? again.header.blueprint = some b →
              again.kind? = add.kind? →
              ((∃ r, again.apply m₂ = .ok r) ↔ ∃ r, again.apply m = .ok r) ∧
              ∀ m₃ s, again.apply m₂ = .ok (m₃, s) → s = "Added " ++ x.name ∧
                ∃ c y, m₃.resolve? again.header.blueprint = some c ∧
                  c.allNodes.Perm (b.allNodes ++ [y]) ∧ y.name = x.name) := by
  obtain ⟨t, hkind, hgraph, hc, rfl, hname, rfl⟩ := add.node_of_apply hm hadd hb
  obtain rfl := Option.some.inj (hb₁.symm.trans hc)
  have hfresh := b.freshNodeName_not_mem t.1
  have hnodes := perm_allNodes_add add (add.node t m.next b) hgraph
  refine ⟨⟨add.node t m.next b, hnodes.mem_iff.mpr (by simp), fun hold => ?_⟩,
    fun x hx hnew => ?_⟩
  · exact hfresh (hname ▸ List.mem_map_of_mem hold)
  obtain rfl : x = add.node t m.next b := by
    rcases List.mem_append.mp (hnodes.mem_iff.mp hx) with hold | hadded
    · exact absurd hold hnew
    · exact List.mem_singleton.mp hadded
  refine ⟨by rw [hname], fun hguids hlinks delete hdelete hid => ?_⟩
  obtain ⟨m₂, hm₂, hcoherent, hloaded⟩ := add.delete_returns hm hgraph hdelete hid
    (by rwa [hname]) hguids hlinks (1 + (add.node t m.next b).pins.length)
  have hsame := Model.loaded_update_map hm (Model.mem_of_resolve? hb)
    (f := Blueprint.markedTwice) rfl
  refine ⟨m₂, hm₂, hloaded.trans hsame, fun again hagain hkinds => ?_⟩
  have hresolve : m₂.resolve? again.header.blueprint = some b.markedTwice :=
    (Model.resolve?_congr hloaded _).trans (Model.resolve?_of_update hm hagain ⟨rfl, rfl, rfl⟩)
  refine ⟨(again.returns_iff hresolve).trans (again.returns_iff hagain).symm, fun m₃ s h₃ => ?_⟩
  obtain ⟨t', hkind', hgraph', hc', -, hname', rfl⟩ := again.node_of_apply hcoherent h₃ hresolve
  have hkinds' : t'.1 = t.1 := Option.some.inj (hkind'.symm.trans (hkinds.trans hkind))
  have hagain' : b.markedTwice.freshNodeName t'.1 = (add.node t m.next b).name := by
    rw [hname, hkinds']
    rfl
  rw [hagain'] at hname' ⊢
  exact ⟨rfl, _, _, hc', perm_allNodes_add again _ hgraph', hname'⟩

def addGetSpeed : NodeAdd :=
  ⟨⟨"node_add", "Relay", none, []⟩, "VariableGet", "Flow", some "Speed", none, .origin⟩

def deleteGetSpeed : NodeDelete :=
  ⟨⟨"node_delete", "/Game/Relay", none, []⟩, "K2Node_VariableGet_0"⟩

/-- The relay, whose nodes are linked, gets a node and loses it, and gets one of the same name. -/
theorem delete_undoes_add_relay :
    (Model.empty.load relayDraft).Coherent ∧
    ∃ m₁ m₂ m₃,
      addGetSpeed.apply (Model.empty.load relayDraft) =
        .ok (m₁, "Added K2Node_VariableGet_0") ∧
      deleteGetSpeed.apply m₁ = .ok (m₂, "Deleted K2Node_VariableGet_0") ∧
      m₂.loaded = (Model.empty.load relayDraft).loaded.map
        (fun c => { c with modified := true, modificationCount := c.modificationCount + 2 }) ∧
      addGetSpeed.apply m₂ = .ok (m₃, "Added K2Node_VariableGet_0") := by
  have hm : (Model.empty.load relayDraft).Coherent :=
    (Reachable.load relayDraft (by decide) .empty).tidy.coherent
  let b := (relayDraft.make 0).1
  let x := addGetSpeed.node (.variableGet, "Speed") (Model.empty.load relayDraft).next b
  obtain ⟨-, hall⟩ := delete_undoes_add hm
    (rfl : addGetSpeed.apply (Model.empty.load relayDraft) = .ok _) (rfl : _ = some b)
    (rfl : _ = some (addGetSpeed.add x b))
  have hx : x ∈ (addGetSpeed.add x b).allNodes := by decide
  obtain ⟨-, hundo⟩ := hall x hx (by decide)
  have hname : x.name = "K2Node_VariableGet_0" := by decide
  obtain ⟨m₂, hm₂, hloaded, hagain⟩ :=
    hundo (by decide) (by decide) deleteGetSpeed rfl hname.symm
  obtain ⟨hreturns, hsame⟩ := hagain addGetSpeed rfl rfl
  obtain ⟨⟨m₃, s⟩, hm₃⟩ := hreturns.mpr ⟨_, rfl⟩
  obtain ⟨rfl, -⟩ := hsame m₃ s hm₃
  rw [hname] at hm₂ hm₃
  exact ⟨hm, _, m₂, m₃, rfl, hm₂, hloaded, hm₃⟩

end BlueprintPatch

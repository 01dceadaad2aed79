import BlueprintPatch.Proofs.Owners

/-! What a deletion changes, exactly. The first node that answers to the name or guid goes, and with
it the links to its pins in the same blueprint. If no node is in two places, the search by name, the
search for the owner and the removal of the object all come to this one node. -/
namespace BlueprintPatch

theorem Blueprint.removeNode?_eq_some {p : Node → Bool} {b c : Blueprint}
    (h : b.removeNode? p = some c) :
    ∃ (graphs later : List Graph) (g : Graph) (before after : List Node) (x : Node),
      b.graphs = graphs ++ g :: later ∧ g.nodes = before ++ x :: after ∧ p x = true ∧
      (∀ y ∈ graphs.flatMap (·.nodes) ++ before, ¬ p y = true) ∧
      takeNode? p b.graphs = some (x, graphs ++ { g with nodes := before ++ after } :: later) ∧
      c = { b with
        graphs := (graphs ++ { g with nodes := before ++ after } :: later).map
          (mapPins (Pin.unlink (x.pins.map (·.id)))) } := by
  have hfind : (b.allNodes.find? p).isSome := by
    rw [← isSome_removeNode?, h, Option.isSome_some]
  have hsome : (b.graphs.find? fun g => g.nodes.any p).isSome := by
    obtain ⟨x, hx, hpx⟩ := List.find?_isSome.mp hfind
    obtain ⟨g, hg, hxg⟩ := List.mem_flatMap.mp hx
    exact List.find?_isSome.mpr ⟨g, hg, List.any_eq_true.mpr ⟨x, hxg, hpx⟩⟩
  obtain ⟨graphs, g, later, hgraphs, hg, hearlier⟩ := exists_first hsome
  obtain ⟨before, x, after, hnodes, hx, hbefore⟩ := exists_first (by rwa [List.isSome_find?])
  have hleft : takeFirst? p g.nodes = some (x, before ++ after) := by
    rw [hnodes, takeFirst?_append hbefore hx]
  have htake : takeNode? p b.graphs =
      some (x, graphs ++ { g with nodes := before ++ after } :: later) := by
    rw [hgraphs, takeNode?_append hearlier hleft]
  refine ⟨graphs, later, g, before, after, x, hgraphs, hnodes, hx, ?_, htake, ?_⟩
  · intro y hy
    rcases List.mem_append.mp hy with hy | hy
    · obtain ⟨k, hk, hyk⟩ := List.mem_flatMap.mp hy
      exact fun hp => hearlier k hk (List.any_eq_true.mpr ⟨y, hyk, hp⟩)
    · exact hbefore y hy
  · rw [removeNode?, htake, Option.map_some] at h
    exact (Option.some.inj h).symm

theorem filter_handle_ne {before after : List Node} {x : Node}
    (h : ((before ++ x :: after).map (·.handle)).Nodup) :
    (before ++ x :: after).filter (·.handle ≠ x.handle) = before ++ after := by
  rw [List.map_append, List.map_cons, List.nodup_append, List.nodup_cons] at h
  obtain ⟨-, ⟨hafter, -⟩, hapart⟩ := h
  have hb : ∀ y ∈ before, y.handle ≠ x.handle := fun y hy =>
    hapart y.handle (List.mem_map_of_mem hy) x.handle List.mem_cons_self
  have ha : ∀ y ∈ after, y.handle ≠ x.handle := fun y hy he =>
    hafter (he ▸ List.mem_map_of_mem hy)
  rw [List.filter_append, List.filter_cons_of_neg (by simp),
    List.filter_eq_self.mpr (by simpa using hb), List.filter_eq_self.mpr (by simpa using ha)]

theorem mem_linkedTo_unlink {ids : List String} {p : Pin} {id : String} :
    id ∈ (p.unlink ids).linkedTo ↔ id ∈ p.linkedTo ∧ id ∉ ids := by
  simp [Pin.unlink]

theorem not_linked_of_unlinked {ids : List String} {b : Blueprint} {gs : List Graph}
    (h : b.graphs = gs.map (Blueprint.mapPins (Pin.unlink ids))) :
    ∀ p ∈ b.pins, ∀ id ∈ p.linkedTo, id ∉ ids := by
  have hpins : b.pins = ((gs.flatMap (·.nodes)).flatMap (·.pins)).map (Pin.unlink ids) := by
    simp only [Blueprint.pins, Blueprint.allNodes, h, Blueprint.mapPins, List.flatMap_map,
      List.map_flatMap, List.flatMap_assoc]
  intro p hp id hid
  rw [hpins] at hp
  obtain ⟨q, -, rfl⟩ := List.mem_map.mp hp
  exact (mem_linkedTo_unlink.mp hid).2

theorem id_not_mem_of_taken {p : Node → Bool} {b : Blueprint} {x : Node} {left : List Graph}
    (htake : takeNode? p b.graphs = some (x, left)) (hnodup : (b.pins.map (·.id)).Nodup)
    {q : Pin} (hq : q ∈ ({ b with graphs := left } : Blueprint).pins) :
    q.id ∉ x.pins.map (·.id) := by
  have hperm := ((perm_of_takeNode? htake).flatMap_right (·.pins)).map (·.id)
  rw [List.flatMap_cons, List.map_append] at hperm
  have hapart := (List.nodup_append.mp (hperm.nodup_iff.mp hnodup)).2.2
  exact fun hx => hapart q.id hx q.id (List.mem_map_of_mem hq) rfl

/-- In a model without a node in two places, a deletion that succeeds removes the first node that
has the name or guid, the same one as a removal of the object would; of the rest it changes only the
pins of the blueprint, which lose their links to the pins of that node. So no pin is linked to a pin
that is gone, and if ids are distinct, no link between the others is lost. -/
theorem delete_exact {m m' : Model} {op : NodeDelete} {summary : String} (hm : m.NodesOnce)
    (h : op.apply m = .ok (m', summary)) :
    ∃ (b left b' : Blueprint) (graphs later : List Graph) (g : Graph) (before after : List Node)
      (x : Node),
      m.resolve? op.header.blueprint = some b ∧
      b.graphs = graphs ++ g :: later ∧ g.nodes = before ++ x :: after ∧
      (x.name = op.nodeId ∨ x.guid = op.nodeId) ∧
      (∀ y ∈ graphs.flatMap (·.nodes) ++ before, y.name ≠ op.nodeId ∧ y.guid ≠ op.nodeId) ∧
      left = { b with graphs := graphs ++ { g with nodes := before ++ after } :: later } ∧
      b' = { left with
        graphs := left.graphs.map (Blueprint.mapPins (Pin.unlink (x.pins.map (·.id))))
        modified := true
        modificationCount := b.modificationCount + 1 } ∧
      m'.loaded = m.loaded.map (fun c => if c.handle = b.handle then b' else c) ∧
      (∀ c ∈ m.loaded, x.handle ∈ c.nodeHandles → c = b) ∧
      g.nodes.filter (·.handle ≠ x.handle) = before ++ after ∧
      (∃ k, m.deleteNode? x.handle = some (m.update k) ∧ b' = k.markModified) ∧
      (∀ p ∈ b'.pins, ∀ id ∈ p.linkedTo, id ∉ x.pins.map (·.id)) ∧
      ((b.pins.map (·.id)).Nodup → ∀ p ∈ left.pins, ∀ q ∈ left.pins, q.id ∈ p.linkedTo →
        q.id ∈ (p.unlink (x.pins.map (·.id))).linkedTo) := by
  obtain ⟨b, z, c, hb, hz, hc, hdelete, hhandle, hloaded⟩ := NodeDelete.apply_by_owner hm h
  have hmarked : m'.loaded = (m.update c.markModified).loaded :=
    hloaded.trans (Model.loaded_update_update (b := c) (c := c.markModified) rfl 0 m)
  obtain ⟨graphs, later, g, before, after, x, hgraphs, hnodes, hx, hearlier, htake, rfl⟩ :=
    Blueprint.removeNode?_eq_some hc
  have hmem := Model.mem_of_resolve? hb
  -- The node that is found by its name is the one that is taken out.
  have hzx : z = x := by
    have hfirst := takeNode?_flatMap (·.answersTo op.nodeId) b.graphs
    have hfind : (b.graphs.flatMap (·.nodes)).find? (·.answersTo op.nodeId) = some z := hz
    rw [htake, takeFirst?_eq, hfind] at hfirst
    exact (Prod.mk.inj (Option.some.inj hfirst)).1.symm
  subst hzx
  have hzb : z.handle ∈ b.nodeHandles := List.mem_map_of_mem (List.mem_of_find?_eq_some hz)
  refine ⟨b, _, _, graphs, later, g, before, after, z, hb, hgraphs, hnodes, ?_, ?_, rfl, rfl, ?_,
    ?_, ?_, ⟨_, hdelete, rfl⟩, ?_, ?_⟩
  · simpa [Node.answersTo] using hx
  · simpa [Node.answersTo] using hearlier
  · exact hmarked
  · exact fun c hc hzc => hm.owned c hc b hmem z.handle hzc hzb
  · rw [hnodes]
    have hnodup := hm.nodup b hmem
    rw [Blueprint.nodeHandles, Blueprint.allNodes, hgraphs, List.flatMap_append, List.flatMap_cons,
      hnodes, List.map_append, List.map_append] at hnodup
    exact filter_handle_ne (List.nodup_append.mp (List.nodup_append.mp hnodup).2.1).1
  · exact not_linked_of_unlinked rfl
  · intro hnodup p hp q hq hlink
    exact mem_linkedTo_unlink.mpr ⟨hlink, id_not_mem_of_taken htake hnodup hq⟩

/-- A relay with one node that is linked to two others; the name of the last is the guid of the one
before. -/
def relayDraft : BlueprintDraft :=
  ⟨"Relay", "/Game/Relay", none, [],
    [⟨"EventGraph", .eventGraph,
      [⟨"A", some "G", .generic, none, .zero, .zero,
        [⟨some "P", "Out", .output, "exec", "", ["Q", "R", "Q"]⟩]⟩]⟩,
     ⟨"Flow", .function,
      [⟨"B", some "H", .generic, none, .zero, .zero,
        [⟨some "Q", "In", .input, "exec", "", ["P"]⟩]⟩,
       ⟨"H", some "I", .generic, none, .zero, .zero,
        [⟨some "R", "In", .input, "exec", "", ["P"]⟩]⟩]⟩], false, 0⟩

def deleteH : NodeDelete := ⟨⟨"node_delete", "Relay", none, []⟩, "H"⟩

/-- The relay loses the node with the guid, and the one with the name stays linked. -/
theorem delete_exact_relay :
    (Model.empty.load relayDraft).NodesOnce ∧
    ∃ m summary, deleteH.apply (Model.empty.load relayDraft) = .ok (m, summary) ∧
      ∃ b b' : Blueprint, (Model.empty.load relayDraft).resolve? "Relay" = some b ∧
        m.loaded = [b'] ∧ (b.pins.map (·.id)).Nodup ∧ b'.allNodes.map (·.name) = ["A", "H"] ∧
        b'.pins.map Pin.joint = [⟨"P", ["R"]⟩, ⟨"R", ["P"]⟩] ∧
        ∃ x ∈ b.allNodes, (x.name = "H" ∨ x.guid = "H") ∧
          ∀ p ∈ b'.pins, ∀ id ∈ p.linkedTo, id ∉ x.pins.map (·.id) := by
  have hm : (Model.empty.load relayDraft).NodesOnce :=
    (Reachable.load relayDraft (by decide) .empty).parted.nodesOnce
  refine ⟨hm, _, _, rfl, ?_⟩
  obtain ⟨b, left, b', graphs, later, g, before, after, x, hb, hgraphs, hnodes, hx, hearlier, -, -,
    hloaded, -, -, -, hpins, -⟩ :=
    delete_exact hm (rfl : deleteH.apply (Model.empty.load relayDraft) = .ok _)
  have hxb : x ∈ b.allNodes := by simp [Blueprint.allNodes, hgraphs, hnodes]
  obtain rfl := Option.some.inj hb
  obtain ⟨rfl, -⟩ := List.cons.inj hloaded
  exact ⟨_, _, rfl, rfl, by decide, by decide, by decide, x, hxb, hx, hpins⟩

end BlueprintPatch

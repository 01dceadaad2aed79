import BlueprintPatch.Proofs.Batch
import BlueprintPatch.Proofs.Saving

/-! Rolling back on the heap. Restoring writes fields and lists as they were when the state was
saved, in the heap `o`. What is as it was stays so while the others are written: only lists of that
time are filled, each with what was in it then. -/
namespace BlueprintPatch

namespace Heap

variable {α : Type} {o h h' h'' : Heap} {kept : Heap → Saved α → Prop}

/-- The links of the pin are as they were, in whatever list. -/
structure PinPut (o h : Heap) (p : Handle) : Prop where
  cell : (h.pin p).map h.texts = (o.pin p).map o.texts
  lt : (h.pin p).linkedTo < h.next

/-- A field that held the list at `a` holds the one at `b`: the same one, or for an empty list one
that is new since. -/
structure ListPut (o h : Heap) (a b : Address) : Prop where
  lt : b < h.next
  same : o.list a ≠ [] → b = a
  new : o.list a = [] → o.next ≤ b ∧ h.list b = []

structure NodePut (o h : Heap) (n : Handle) : Prop where
  cell : (h.node n).map (fun _ => ()) = (o.node n).map fun _ => ()
  pins : ListPut o h (o.node n).pins (h.node n).pins

structure GraphPut (o h : Heap) (g : Handle) : Prop where
  cell : (h.graph g).map (fun _ => ()) = (o.graph g).map fun _ => ()
  nodes : ListPut o h (o.graph g).nodes (h.graph g).nodes

structure BlueprintPut (o h : Heap) (b : Handle) : Prop where
  cell : (h.blueprint b).map (fun _ => ()) (fun _ => ()) =
    (o.blueprint b).map (fun _ => ()) fun _ => ()
  members : ListPut o h (o.blueprint b).members (h.blueprint b).members
  graphs : ListPut o h (o.blueprint b).graphs (h.blueprint b).graphs

/-- Each field and each list is left alone or becomes as it was in `o`. -/
structure Tends (o h h' : Heap) : Prop extends Spares h h' where
  lists : ∀ a < h.next, h'.list a = h.list a ∨ a < o.next ∧ h'.list a = o.list a
  alltexts : ∀ a < h.next, h'.texts a = h.texts a
  pin : ∀ p, h'.pin p = h.pin p ∨ PinPut o h' p
  node : ∀ n, h'.node n = h.node n ∨ NodePut o h' n
  graph : ∀ g, h'.graph g = h.graph g ∨ GraphPut o h' g
  member : ∀ v, h'.member v = h.member v ∨ h'.member v = o.member v
  blueprint : ∀ b, h'.blueprint b = h.blueprint b ∨ BlueprintPut o h' b

theorem PinPut.mono {p : Handle} (k : PinPut o h p) (t : Tends o h h') : PinPut o h' p := by
  rcases t.pin p with hsame | hput
  · refine ⟨?_, ?_⟩
    · rw [hsame, ← k.cell, PinCell.map, t.alltexts _ k.lt]
      rfl
    · rw [hsame]
      exact Nat.lt_of_lt_of_le k.lt t.next
  · exact hput

theorem ListPut.mono {a b : Address} (k : ListPut o h a b) (t : Tends o h h') :
    ListPut o h' a b where
  lt := Nat.lt_of_lt_of_le k.lt t.next
  same := k.same
  new hempty := by
    obtain ⟨hnew, hb⟩ := k.new hempty
    refine ⟨hnew, ?_⟩
    rcases t.lists b k.lt with hsame | ⟨hlt, -⟩
    · rw [hsame, hb]
    · exact absurd hnew (Nat.not_le_of_lt hlt)

theorem NodePut.mono {n : Handle} (k : NodePut o h n) (t : Tends o h h') : NodePut o h' n := by
  rcases t.node n with hsame | hput
  · exact ⟨by rw [hsame, k.cell], by rw [hsame]; exact k.pins.mono t⟩
  · exact hput

theorem GraphPut.mono {g : Handle} (k : GraphPut o h g) (t : Tends o h h') : GraphPut o h' g := by
  rcases t.graph g with hsame | hput
  · exact ⟨by rw [hsame, k.cell], by rw [hsame]; exact k.nodes.mono t⟩
  · exact hput

theorem BlueprintPut.mono {b : Handle} (k : BlueprintPut o h b) (t : Tends o h h') :
    BlueprintPut o h' b := by
  rcases t.blueprint b with hsame | hput
  · exact ⟨by rw [hsame, k.cell], by rw [hsame]; exact k.members.mono t,
      by rw [hsame]; exact k.graphs.mono t⟩
  · exact hput

theorem Tends.refl (o h : Heap) : Tends o h h :=
  { Spares.refl h with
    lists := fun _ _ => .inl rfl
    alltexts := fun _ _ => rfl
    pin := fun _ => .inl rfl
    node := fun _ => .inl rfl
    graph := fun _ => .inl rfl
    member := fun _ => .inl rfl
    blueprint := fun _ => .inl rfl }

theorem alone_or_put {γ : Type} {c c' c'' : γ} {put put' : Prop} (hmono : put → put')
    (s : c' = c ∨ put) (t : c'' = c' ∨ put') : c'' = c ∨ put' := by
  rcases t with rfl | ht
  · exact s.imp_right hmono
  · exact .inr ht

theorem Tends.trans (s : Tends o h h') (t : Tends o h' h'') : Tends o h h'' :=
  { s.toSpares.trans t.toSpares with
    lists := by
      intro a ha
      rcases t.lists a (Nat.lt_of_lt_of_le ha s.next) with hsame | hput
      · rw [hsame]
        exact s.lists a ha
      · exact .inr hput
    alltexts := fun a ha =>
      (t.alltexts a (Nat.lt_of_lt_of_le ha s.next)).trans (s.alltexts a ha)
    pin := fun p => alone_or_put (fun k => PinPut.mono k t) (s.pin p) (t.pin p)
    node := fun n => alone_or_put (fun k => NodePut.mono k t) (s.node n) (t.node n)
    graph := fun g => alone_or_put (fun k => GraphPut.mono k t) (s.graph g) (t.graph g)
    member := by
      intro v
      rcases t.member v with hsame | hput
      · rw [hsame]
        exact s.member v
      · exact .inr hput
    blueprint := fun b =>
      alone_or_put (fun k => BlueprintPut.mono k t) (s.blueprint b) (t.blueprint b) }

structure NodeBack (o h : Heap) (n : Handle) : Prop where
  put : NodePut o h n
  list : h.list (h.node n).pins = o.list (o.node n).pins
  pins : ∀ p ∈ o.list (o.node n).pins, PinPut o h p

structure GraphBack (o h : Heap) (g : Handle) : Prop where
  put : GraphPut o h g
  list : h.list (h.graph g).nodes = o.list (o.graph g).nodes
  nodes : ∀ n ∈ o.list (o.graph g).nodes, NodeBack o h n

def MemberBack (o h : Heap) (v : Handle) : Prop := h.member v = o.member v

structure BlueprintBack (o h : Heap) (b : Handle) : Prop where
  put : BlueprintPut o h b
  memberList : h.list (h.blueprint b).members = o.list (o.blueprint b).members
  members : ∀ v ∈ o.list (o.blueprint b).members, MemberBack o h v
  graphList : h.list (h.blueprint b).graphs = o.list (o.blueprint b).graphs
  graphs : ∀ g ∈ o.list (o.blueprint b).graphs, GraphBack o h g

/-- A list that is as it was is not filled with anything else, since only the lists of that time are
filled. -/
theorem ListPut.list_mono {a b b' : Address} (k : ListPut o h a b) (hlist : h.list b = o.list a)
    (k' : ListPut o h' a b') (t : Tends o h h') : h'.list b' = o.list a := by
  by_cases hempty : o.list a = []
  · rw [(k'.new hempty).2, hempty]
  · obtain rfl := k.same hempty
    rw [k'.same hempty]
    rcases t.lists b k.lt with hsame | ⟨-, hput⟩
    · rw [hsame, hlist]
    · exact hput

theorem NodeBack.mono {n : Handle} (k : NodeBack o h n) (t : Tends o h h') : NodeBack o h' n :=
  have hput := k.put.mono t
  ⟨hput, k.put.pins.list_mono k.list hput.pins t, fun p hp => (k.pins p hp).mono t⟩

theorem GraphBack.mono {g : Handle} (k : GraphBack o h g) (t : Tends o h h') : GraphBack o h' g :=
  have hput := k.put.mono t
  ⟨hput, k.put.nodes.list_mono k.list hput.nodes t, fun n hn => (k.nodes n hn).mono t⟩

theorem MemberBack.mono {v : Handle} (k : MemberBack o h v) (t : Tends o h h') :
    MemberBack o h' v := by
  rcases t.member v with hsame | hput
  · exact hsame.trans k
  · exact hput

theorem BlueprintBack.mono {b : Handle} (k : BlueprintBack o h b) (t : Tends o h h') :
    BlueprintBack o h' b :=
  have hput := k.put.mono t
  ⟨hput, k.put.members.list_mono k.memberList hput.members t, fun v hv => (k.members v hv).mono t,
    k.put.graphs.list_mono k.graphList hput.graphs t, fun g hg => (k.graphs g hg).mono t⟩

theorem PinPut.read {p : Handle} (k : PinPut o h p) : h.readPin p = o.readPin p := by
  simp only [readPin, k.cell]

theorem NodeBack.read {n : Handle} (k : NodeBack o h n) : h.readNode n = o.readNode n := by
  have hcell := k.put.cell
  have hpins := List.map_congr_left fun p hp => PinPut.read (k.pins p hp)
  simp only [NodeCell.map, NodeCell.mk.injEq] at hcell
  simp only [readNode, NodeCell.map, k.list, hpins, hcell]

theorem GraphBack.read {g : Handle} (k : GraphBack o h g) : h.readGraph g = o.readGraph g := by
  have hcell := k.put.cell
  have hnodes := List.map_congr_left fun n hn => NodeBack.read (k.nodes n hn)
  simp only [GraphCell.map, GraphCell.mk.injEq] at hcell
  simp only [readGraph, GraphCell.map, k.list, hnodes, hcell]

theorem MemberBack.read {v : Handle} (k : MemberBack o h v) : h.readMember v = o.readMember v := by
  rw [readMember, readMember, k]

theorem BlueprintBack.read {b : Handle} (k : BlueprintBack o h b) :
    h.readBlueprint b = o.readBlueprint b := by
  have hcell := k.put.cell
  have hmembers := List.map_congr_left fun v hv => MemberBack.read (k.members v hv)
  have hgraphs := List.map_congr_left fun g hg => GraphBack.read (k.graphs g hg)
  simp only [BlueprintCell.map, BlueprintCell.mk.injEq] at hcell
  simp only [readBlueprint, BlueprintCell.map, k.memberList, k.graphList, hmembers, hgraphs, hcell]

/-- Where no cell changes, only the lists matter. -/
theorem Tends.of_lists (hs : Spares h h') (hpin : h'.pin = h.pin) (hnode : h'.node = h.node)
    (hgraph : h'.graph = h.graph) (hmember : h'.member = h.member)
    (hblueprint : h'.blueprint = h.blueprint)
    (hlists : ∀ a < h.next, h'.list a = h.list a ∨ a < o.next ∧ h'.list a = o.list a)
    (htexts : ∀ a < h.next, h'.texts a = h.texts a) : Tends o h h' :=
  { hs with
    lists := hlists
    alltexts := htexts
    pin := fun p => .inl (congrFun hpin p)
    node := fun n => .inl (congrFun hnode n)
    graph := fun g => .inl (congrFun hgraph g)
    member := fun v => .inl (congrFun hmember v)
    blueprint := fun b => .inl (congrFun hblueprint b) }

theorem tends_newList (o h : Heap) (items : List Handle) : Tends o h (h.newList items).2 :=
  .of_lists (spares_newList h items) rfl rfl rfl rfl rfl
    (fun _ ha => .inl (Function.update_of_ne (Nat.ne_of_lt ha) _ _)) fun _ _ => rfl

theorem tends_newTexts (o h : Heap) (items : List String) : Tends o h (h.newTexts items).2 :=
  .of_lists (spares_newTexts h items) rfl rfl rfl rfl rfl (fun _ _ => .inl rfl)
    fun _ ha => Function.update_of_ne (Nat.ne_of_lt ha) _ _

theorem tends_fill {a : Address} (ha : a < o.next) (hvisible : h.visible a) :
    Tends o h (h.fill a (o.list a)) := by
  refine .of_lists (spares_fill hvisible _) rfl rfl rfl rfl rfl ?_ fun _ _ => rfl
  intro b _
  by_cases hb : b = a
  · subst hb
    exact .inr ⟨ha, Function.update_self _ _ _⟩
  · exact .inl (Function.update_of_ne hb _ _)

theorem update_or {γ : Type} {f : Handle → γ} {x : Handle} {c : γ} {P : Handle → Prop} (hx : P x)
    (y : Handle) : Function.update f x c y = f y ∨ P y := by
  by_cases hy : y = x
  · subst hy
    exact .inr hx
  · exact .inl (Function.update_of_ne hy _ _)

/-- Where no list changes, only the cells matter. -/
theorem Tends.of_cells (hnext : h'.next = h.next) (hvisible : h'.visible = h.visible)
    (hlist : h'.list = h.list) (htexts : h'.texts = h.texts)
    (hpin : ∀ p, h'.pin p = h.pin p ∨ PinPut o h' p)
    (hnode : ∀ n, h'.node n = h.node n ∨ NodePut o h' n)
    (hgraph : ∀ g, h'.graph g = h.graph g ∨ GraphPut o h' g)
    (hmember : ∀ v, h'.member v = h.member v ∨ h'.member v = o.member v)
    (hblueprint : ∀ b, h'.blueprint b = h.blueprint b ∨ BlueprintPut o h' b) : Tends o h h' :=
  { spares_of_lists hnext hvisible hlist htexts with
    lists := fun a _ => .inl (congrFun hlist a)
    alltexts := fun a _ => congrFun htexts a
    pin := hpin
    node := hnode
    graph := hgraph
    member := hmember
    blueprint := hblueprint }

theorem tends_setPin {p : Handle} {c : PinCell Address} (hput : PinPut o (h.setPin p c) p) :
    Tends o h (h.setPin p c) :=
  .of_cells rfl rfl rfl rfl (update_or hput) (fun _ => .inl rfl) (fun _ => .inl rfl)
    (fun _ => .inl rfl) fun _ => .inl rfl

theorem tends_setNode {n : Handle} {c : NodeCell Address} (hput : NodePut o (h.setNode n c) n) :
    Tends o h (h.setNode n c) :=
  .of_cells rfl rfl rfl rfl (fun _ => .inl rfl) (update_or hput) (fun _ => .inl rfl)
    (fun _ => .inl rfl) fun _ => .inl rfl

theorem tends_setGraph {g : Handle} {c : GraphCell Address}
    (hput : GraphPut o (h.setGraph g c) g) : Tends o h (h.setGraph g c) :=
  .of_cells rfl rfl rfl rfl (fun _ => .inl rfl) (fun _ => .inl rfl) (update_or hput)
    (fun _ => .inl rfl) fun _ => .inl rfl

theorem tends_setMember {v : Handle} {c : MemberCell}
    (hput : (h.setMember v c).member v = o.member v) : Tends o h (h.setMember v c) :=
  .of_cells rfl rfl rfl rfl (fun _ => .inl rfl) (fun _ => .inl rfl) (fun _ => .inl rfl)
    (update_or (P := fun w => (h.setMember v c).member w = o.member w) hput) fun _ => .inl rfl

theorem tends_setBlueprint {b : Handle} {c : BlueprintCell Address Address}
    (hput : BlueprintPut o (h.setBlueprint b c) b) : Tends o h (h.setBlueprint b c) :=
  .of_cells rfl rfl rfl rfl (fun _ => .inl rfl) (fun _ => .inl rfl) (fun _ => .inl rfl)
    (fun _ => .inl rfl) (update_or hput)

/-- Restoring what is kept of an object brings the object back and spoils no other. -/
structure Restores (o : Heap) (restore : Saved α → Heap → Handle × Heap)
    (kept : Heap → Saved α → Prop) (back : Heap → Handle → Prop) : Prop where
  handle : ∀ s h, (restore s h).1 = s.handle
  tends : ∀ {h s}, o.next ≤ h.next → kept h s → Tends o h (restore s h).2
  sound : ∀ {h s}, o.next ≤ h.next → kept h s → h.Sound → (restore s h).2.Sound
  bring : ∀ {h s}, o.next ≤ h.next → kept h s → back (restore s h).2 s.handle
  kept_mono : ∀ {h h' s}, kept h s → Spares h h' → kept h' s
  back_mono : ∀ {h h' x}, back h x → Tends o h h' → back h' x

variable {restore : Saved α → Heap → Handle × Heap} {back : Heap → Handle → Prop}

theorem Restores.each (hrestore : Restores o restore kept back) {items : List (Saved α)}
    (hnext : o.next ≤ h.next) (hkept : ∀ s ∈ items, kept h s) :
    let r := Heap.each restore items h
    r.1 = items.map (·.handle) ∧ Tends o h r.2 ∧ (h.Sound → r.2.Sound) ∧
      ∀ s ∈ items, back r.2 s.handle := by
  induction items generalizing h with
  | nil => exact ⟨rfl, .refl o h, id, nofun⟩
  | cons s items ih =>
    have hs := hkept s List.mem_cons_self
    have hfirst := hrestore.tends hnext hs
    have hrest : ∀ t ∈ items, kept (restore s h).2 t := fun t ht =>
      hrestore.kept_mono (hkept t (List.mem_cons_of_mem s ht)) hfirst.toSpares
    obtain ⟨hhandles, htends, hsound, hback⟩ := ih (Nat.le_trans hnext hfirst.next) hrest
    refine ⟨congrArg₂ List.cons (hrestore.handle s h) hhandles, hfirst.trans htends,
      fun h => hsound (hrestore.sound hnext hs h), ?_⟩
    intro t ht
    rcases List.mem_cons.mp ht with rfl | ht
    · exact hrestore.back_mono (hrestore.bring hnext hs) htends
    · exact hback t ht

/-- What restoring a list at `a` leaves for the field: the list `b`. -/
structure ListRestored (o h h' : Heap) (back : Heap → Handle → Prop) (a b : Address) : Prop where
  tends : Tends o h h'
  sound : h.Sound → h'.Sound
  visible : h'.visible b
  put : ListPut o h' a b
  list : h'.list b = o.list a
  back : ∀ x ∈ o.list a, back h' x

theorem Restores.list (hrestore : Restores o restore kept back) {a : Address}
    {l : SavedList (Saved α)} (hnext : o.next ≤ h.next) (k : ListKept o h kept a l) :
    ListRestored o h (restoreList restore l h).2 back a (restoreList restore l h).1 := by
  cases l with
  | copy b =>
    obtain ⟨hempty, hcopy, -⟩ := k
    have hlist : (h.newList (h.list b)).2.list h.next = [] :=
      (Function.update_self _ _ _).trans hcopy
    exact
      { tends := tends_newList o h _
        sound := fun hs => hs.newList _
        visible := .inl rfl
        put := ⟨Nat.lt_succ_self _, fun hne => absurd hempty hne, fun _ => ⟨hnext, hlist⟩⟩
        list := hlist.trans hempty.symm
        back := by simp [hempty] }
  | original b items =>
    obtain ⟨rfl, hlt, hvisible, hne, hitems, hall⟩ := k
    obtain ⟨hhandles, htends, hsound, hback⟩ := hrestore.each hnext hall
    have hfill := tends_fill (h := (Heap.each restore items h).2) hlt (htends.visible b hvisible)
    rw [← hitems, ← hhandles] at hfill
    have hlist : (restoreList restore (.original b items) h).2.list b = o.list b :=
      (Function.update_self _ _ _).trans (hhandles.trans hitems)
    exact
      { tends := htends.trans hfill
        sound := fun hs => (hsound hs).fill _ _
        visible := hfill.visible b (htends.visible b hvisible)
        put := ⟨Nat.lt_of_lt_of_le hlt (Nat.le_trans hnext (htends.trans hfill).next),
          fun _ => rfl, fun hempty => absurd hempty hne⟩
        list := hlist
        back := by
          intro x hx
          obtain ⟨s, hs, rfl⟩ := List.mem_map.mp (hitems ▸ hx)
          exact hrestore.back_mono (hback s hs) hfill }

@[simp] theorem pin_setPin (p : Handle) (c : PinCell Address) : (h.setPin p c).pin p = c :=
  Function.update_self _ _ _

@[simp] theorem node_setNode (n : Handle) (c : NodeCell Address) : (h.setNode n c).node n = c :=
  Function.update_self _ _ _

@[simp] theorem graph_setGraph (g : Handle) (c : GraphCell Address) :
    (h.setGraph g c).graph g = c :=
  Function.update_self _ _ _

@[simp] theorem member_setMember (v : Handle) (c : MemberCell) : (h.setMember v c).member v = c :=
  Function.update_self _ _ _

@[simp] theorem blueprint_setBlueprint (b : Handle) (c : BlueprintCell Address Address) :
    (h.setBlueprint b c).blueprint b = c :=
  Function.update_self _ _ _

theorem PinKept.put {s : SavedPin} (k : PinKept o h s) : PinPut o (restorePin s h).2 s.handle where
  cell := by
    have hcell := k.cell
    simp only [PinCell.map, PinCell.mk.injEq] at hcell
    simp [restorePin, newTexts, hideTexts, expose, PinCell.map, hcell, setPin]
  lt := by
    simp only [restorePin, pin_setPin]
    exact Nat.lt_succ_self _

theorem restores_pin (o : Heap) : Restores o restorePin (PinKept o) (PinPut o) where
  handle _ _ := rfl
  tends _ k := (tends_newTexts o _ _).trans (tends_setPin k.put)
  sound _ _ hs := (hs.newTexts _).setPin _ (.inl rfl)
  bring _ k := k.put
  kept_mono := PinKept.mono
  back_mono := PinPut.mono

theorem NodeKept.put {s : SavedNode} {a : Address} (k : NodeKept o h s)
    (hput : ListPut o h' (o.node s.handle).pins a) :
    NodePut o (h'.setNode s.handle (s.cell.map fun _ => a)) s.handle where
  cell := by
    rw [node_setNode]
    exact k.cell
  pins := by
    rw [node_setNode]
    exact ⟨hput.lt, hput.same, hput.new⟩

theorem restores_node (o : Heap) : Restores o restoreNode (NodeKept o) (NodeBack o) where
  handle _ _ := rfl
  tends hnext k :=
    have hpins := (restores_pin o).list hnext k.pins
    hpins.tends.trans (tends_setNode (k.put hpins.put))
  sound hnext k hs :=
    have hpins := (restores_pin o).list hnext k.pins
    (hpins.sound hs).setNode _ hpins.visible
  bring {h s} hnext k := by
    have hpins := (restores_pin o).list hnext k.pins
    have hput := k.put hpins.put
    refine ⟨hput, ?_, fun p hp => (hpins.back p hp).mono (tends_setNode hput)⟩
    simp only [restoreNode, node_setNode]
    exact hpins.list
  kept_mono := NodeKept.mono
  back_mono := NodeBack.mono

theorem GraphKept.put {s : SavedGraph} {a : Address} (k : GraphKept o h s)
    (hput : ListPut o h' (o.graph s.handle).nodes a) :
    GraphPut o (h'.setGraph s.handle (s.cell.map fun _ => a)) s.handle where
  cell := by
    rw [graph_setGraph]
    exact k.cell
  nodes := by
    rw [graph_setGraph]
    exact ⟨hput.lt, hput.same, hput.new⟩

theorem restores_graph (o : Heap) : Restores o restoreGraph (GraphKept o) (GraphBack o) where
  handle _ _ := rfl
  tends hnext k :=
    have hnodes := (restores_node o).list hnext k.nodes
    hnodes.tends.trans (tends_setGraph (k.put hnodes.put))
  sound hnext k hs :=
    have hnodes := (restores_node o).list hnext k.nodes
    (hnodes.sound hs).setGraph _ hnodes.visible
  bring {h s} hnext k := by
    have hnodes := (restores_node o).list hnext k.nodes
    have hput := k.put hnodes.put
    refine ⟨hput, ?_, fun n hn => (hnodes.back n hn).mono (tends_setGraph hput)⟩
    simp only [restoreGraph, graph_setGraph]
    exact hnodes.list
  kept_mono := GraphKept.mono
  back_mono := GraphBack.mono

theorem restores_member (o : Heap) : Restores o restoreMember (MemberKept o) (MemberBack o) where
  handle _ _ := rfl
  tends _ k := tends_setMember ((member_setMember _ _).trans k)
  sound _ _ hs := hs.of_fields hs.lt (fun _ => id) rfl rfl rfl rfl
  bring _ k := (member_setMember _ _).trans k
  kept_mono k _ := k
  back_mono := MemberBack.mono

theorem restores_lists {s : SavedBlueprint} (hnext : o.next ≤ h.next) (k : BlueprintKept o h s) :
    let r := restoreList restoreMember s.cell.members h
    let t := restoreList restoreGraph s.cell.graphs r.2
    ListRestored o h t.2 (MemberBack o) (o.blueprint s.handle).members r.1 ∧
      ListRestored o h t.2 (GraphBack o) (o.blueprint s.handle).graphs t.1 := by
  have hmembers := (restores_member o).list hnext k.members
  have hspares := hmembers.tends.toSpares
  have hkept := k.graphs.mono (fun k => GraphKept.mono k hspares) hspares
  have hgraphs := (restores_graph o).list (Nat.le_trans hnext hspares.next) hkept
  refine ⟨⟨hmembers.tends.trans hgraphs.tends, fun hs => hgraphs.sound (hmembers.sound hs),
    hgraphs.tends.visible _ hmembers.visible, hmembers.put.mono hgraphs.tends,
    hmembers.put.list_mono hmembers.list (hmembers.put.mono hgraphs.tends) hgraphs.tends,
    fun v hv => (hmembers.back v hv).mono hgraphs.tends⟩, ?_⟩
  exact { hgraphs with
    tends := hmembers.tends.trans hgraphs.tends
    sound := fun hs => hgraphs.sound (hmembers.sound hs) }

theorem BlueprintKept.put {s : SavedBlueprint} {a b : Address} (k : BlueprintKept o h s)
    (hmembers : ListPut o h' (o.blueprint s.handle).members a)
    (hgraphs : ListPut o h' (o.blueprint s.handle).graphs b) :
    BlueprintPut o (h'.setBlueprint s.handle (s.cell.map (fun _ => a) fun _ => b)) s.handle where
  cell := by
    rw [blueprint_setBlueprint]
    exact k.cell
  members := by
    rw [blueprint_setBlueprint]
    exact ⟨hmembers.lt, hmembers.same, hmembers.new⟩
  graphs := by
    rw [blueprint_setBlueprint]
    exact ⟨hgraphs.lt, hgraphs.same, hgraphs.new⟩

theorem restores_blueprint (o : Heap) :
    Restores o restoreBlueprint (BlueprintKept o) (BlueprintBack o) where
  handle _ _ := rfl
  tends hnext k :=
    have ⟨hmembers, hgraphs⟩ := restores_lists hnext k
    hgraphs.tends.trans (tends_setBlueprint (k.put hmembers.put hgraphs.put))
  sound hnext k hs :=
    have ⟨hmembers, hgraphs⟩ := restores_lists hnext k
    (hgraphs.sound hs).setBlueprint _ hmembers.visible hgraphs.visible
  bring hnext k := by
    obtain ⟨hmembers, hgraphs⟩ := restores_lists hnext k
    have hput := k.put hmembers.put hgraphs.put
    refine ⟨hput, ?_, fun v hv => (hmembers.back v hv).mono (tends_setBlueprint hput), ?_,
      fun g hg => (hgraphs.back g hg).mono (tends_setBlueprint hput)⟩
    · simp only [restoreBlueprint, blueprint_setBlueprint]
      exact hmembers.list
    · simp only [restoreBlueprint, blueprint_setBlueprint]
      exact hgraphs.list
  kept_mono := BlueprintKept.mono
  back_mono := BlueprintBack.mono

theorem Extends.sound (e : Extends o h) (ho : o.Sound) : h.Sound where
  lt a ha := Nat.lt_of_lt_of_le (ho.lt a (e.visible ▸ ha)) e.next
  pin p := by rw [e.visible, e.pin]; exact ho.pin p
  node n := by rw [e.visible, e.node]; exact ho.node n
  graph g := by rw [e.visible, e.graph]; exact ho.graph g
  members b := by rw [e.visible, e.blueprint]; exact ho.members b
  graphs b := by rw [e.visible, e.blueprint]; exact ho.graphs b

theorem Extends.loaded (e : Extends o h) (ho : o.Sound) : h.loaded = o.loaded := by
  have hpin : h.readPin = o.readPin := by
    funext p
    simp only [readPin, PinCell.map, e.pin, e.texts _ (ho.lt _ (ho.pin p))]
  have hnode : h.readNode = o.readNode := by
    funext n
    simp only [readNode, NodeCell.map, e.node, e.list _ (ho.lt _ (ho.node n)), hpin]
  have hgraph : h.readGraph = o.readGraph := by
    funext g
    simp only [readGraph, GraphCell.map, e.graph, e.list _ (ho.lt _ (ho.graph g)), hnode]
  have hmember : h.readMember = o.readMember := by
    funext v
    simp only [readMember, e.member]
  have hblueprint : h.readBlueprint = o.readBlueprint := by
    funext b
    simp only [readBlueprint, BlueprintCell.map, e.blueprint, e.list _ (ho.lt _ (ho.members b)),
      e.list _ (ho.lt _ (ho.graphs b)), hmember, hgraph]
  rw [Heap.loaded, Heap.loaded, e.registry, hblueprint]

/-- The saved state holds what was loaded in `o`, and nothing of it is lost. -/
structure Holds (o h : Heap) (saved : SavedModel) : Prop where
  sound : h.Sound
  next : o.next ≤ h.next
  handles : saved.map (·.handle) = o.registry
  kept : ∀ s ∈ saved, BlueprintKept o h s

theorem holds_snapshot (hs : h.Sound) :
    Extends h h.snapshot.2 ∧ Holds h h.snapshot.2 h.snapshot.1 := by
  obtain ⟨hhandles, hextend, -, hkept⟩ := (saves_blueprint hs).each h.registry (.refl h)
  exact ⟨hextend, hextend.sound hs, hextend.next, hhandles, hkept⟩

variable {saved : SavedModel}

theorem Holds.read (k : Holds o h saved) : h.readSaved saved = o.loaded := by
  rw [readSaved, Heap.loaded, ← k.handles, List.map_map]
  exact List.map_congr_left fun s hs => (k.kept s hs).read

theorem Holds.loaded_restore (k : Holds o h saved) : (h.restore saved).loaded = o.loaded := by
  obtain ⟨hhandles, -, -, hback⟩ := (restores_blueprint o).each k.next k.kept
  have hregistry : (h.restore saved).registry = o.registry := hhandles.trans k.handles
  rw [Heap.loaded, Heap.loaded, hregistry, ← k.handles, List.map_map, List.map_map]
  exact List.map_congr_left fun s hs => (hback s hs).read

theorem Holds.spares (k : Holds o h saved) (hspares : Spares h h') (hs : h'.Sound) :
    Holds o h' saved :=
  ⟨hs, Nat.le_trans k.next hspares.next, k.handles, fun s hmem => (k.kept s hmem).mono hspares⟩

/-- Restoring leaves the hidden lists alone, those of other saved states included. -/
theorem Holds.spares_restore (k : Holds o h saved) :
    Spares h (h.restore saved) ∧ (h.restore saved).Sound := by
  obtain ⟨-, htends, hsound, -⟩ := (restores_blueprint o).each k.next k.kept
  have hspares : Spares h (h.restore saved) :=
    htends.toSpares.trans (spares_of_lists rfl rfl rfl rfl)
  exact ⟨hspares, (hsound k.sound).of_fields (hsound k.sound).lt (fun _ => id) rfl rfl rfl rfl⟩

/-- What may happen while a state is saved: mutations, and that the state is restored. -/
def Happens (saved : SavedModel) (h h' : Heap) : Prop := Mutation h h' ∨ h' = h.restore saved

theorem Holds.step (k : Holds o h saved) (hstep : Happens saved h h') : Holds o h' saved := by
  rcases hstep with hmutation | rfl
  · have hwrites := hmutation.writes k.sound
    exact k.spares hwrites.spares (hwrites.sound k.sound)
  · exact k.spares k.spares_restore.1 k.spares_restore.2

theorem Holds.run (k : Holds o h saved) (hrun : Relation.ReflTransGen (Happens saved) h h') :
    Holds o h' saved := by
  induction hrun with
  | refl => exact k
  | tail _ hstep ih => exact ih.step hstep

/-- A transaction begins in a heap that holds what is loaded in `m`. Whatever happens to the model,
the saved state stays what was loaded then, and restoring it loads the same objects with the same
content; rolling back the scope of the transaction gives the same. -/
theorem rollback_exact {m : Model} (hs : h.Sound) (hm : h.loaded = m.loaded) :
    let saved := h.snapshot.1
    h.snapshot.2.loaded = m.loaded ∧
    ∀ changed, Relation.ReflTransGen (Happens saved) h.snapshot.2 changed →
      changed.readSaved saved = m.loaded ∧ (changed.restore saved).loaded = m.loaded ∧
      ∀ (label : String) (history : Option History) (m' : Model),
        ∃ scope locked unlocked back,
          Scope.begin label m history .closed = .ok (scope, locked) ∧
          scope.rollback m' locked = .ok (.closed, unlocked, back) ∧
          back.loaded = (changed.restore saved).loaded := by
  intro saved
  obtain ⟨hextend, hholds⟩ := holds_snapshot hs
  refine ⟨(hextend.loaded hs).trans hm, fun changed hrun => ?_⟩
  have hchanged := hholds.run hrun
  have hrestored := hchanged.loaded_restore.trans hm
  refine ⟨hchanged.read.trans hm, hrestored, fun label history m' => ?_⟩
  exact ⟨_, _, _, _, rfl, rfl, hrestored.symm⟩

end Heap

/-- The blueprint with one variable and one node, each list at an address of its own. -/
def lampHeap : Heap where
  pin _ := ⟨"P", "Lit", .output, "bool", "", 0⟩
  node _ := ⟨"N", "G", .variableGet, some "Lit", .zero, .zero, 1⟩
  graph _ := ⟨"EventGraph", .eventGraph, 2⟩
  member _ := ⟨"Lit", "bool", "", false⟩
  blueprint _ := ⟨"Lamp", "/Game/Lamp", none, 3, 4, false, 0⟩
  list
    | 1 => [4]
    | 2 => [3]
    | 3 => [1]
    | 4 => [2]
    | _ => []
  texts _ := []
  visible a := a < 5
  registry := [0]
  next := 5
  supply := 5

theorem sound_lampHeap : lampHeap.Sound :=
  have hlt : ∀ a ≤ 4, lampHeap.visible a := fun _ => Nat.lt_succ_of_le
  ⟨fun _ => id, fun _ => hlt 0 (by decide), fun _ => hlt 1 (by decide), fun _ => hlt 2 (by decide),
    fun _ => hlt 3 (by decide), fun _ => hlt 4 (by decide)⟩

/-- The node is deleted and the variable renamed after the state has been saved. -/
def changedLampHeap : Heap := (lampHeap.snapshot.2.deleteNode 3).renameVariable 1 "On"

/-- Node and name are back, in the objects that were there before. -/
theorem rollback_exact_lamp :
    lampHeap.Sound ∧ lampHeap.loaded = (Model.empty.load lampDraft).loaded ∧
    Relation.ReflTransGen (Heap.Happens lampHeap.snapshot.1) lampHeap.snapshot.2 changedLampHeap ∧
    changedLampHeap.loaded.flatMap (·.allNodes) = [] ∧
    changedLampHeap.loaded.flatMap (·.members.map (·.name)) = ["On"] ∧
    (changedLampHeap.restore lampHeap.snapshot.1).loaded = (Model.empty.load lampDraft).loaded := by
  have hloaded : lampHeap.loaded = (Model.empty.load lampDraft).loaded := by rfl
  have hrun : Relation.ReflTransGen (Heap.Happens lampHeap.snapshot.1) lampHeap.snapshot.2
      changedLampHeap :=
    (Relation.ReflTransGen.single (.inl (.deleteNode 3))).tail (.inl (.renameVariable 1 "On"))
  obtain ⟨-, hrollback⟩ := Heap.rollback_exact sound_lampHeap hloaded
  obtain ⟨-, hrestored, -⟩ := hrollback changedLampHeap hrun
  exact ⟨sound_lampHeap, hloaded, hrun, rfl, rfl, hrestored⟩

end BlueprintPatch

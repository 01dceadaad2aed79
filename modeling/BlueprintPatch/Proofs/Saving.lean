import BlueprintPatch.Proofs.Writes

/-! What saving a state keeps. The copies that it makes are hidden, so what is kept stays kept
whatever a program writes, and it reads as the objects did in the heap in which the state was
saved; that heap is called `o`. -/
namespace BlueprintPatch.Heap

variable {α : Type} {o h h' h'' : Heap}

/-- The copy of the links is hidden and unchanged. -/
structure PinKept (o h : Heap) (s : SavedPin) : Prop where
  cell : s.cell.map h.texts = (o.pin s.handle).map o.texts
  hidden : h.Hidden s.cell.linkedTo

/-- The saved form of a list that stood at `a` in `o`. -/
def ListKept (o h : Heap) (kept : Heap → Saved α → Prop) (a : Address) :
    SavedList (Saved α) → Prop
  | .copy b => o.list a = [] ∧ h.list b = [] ∧ h.Hidden b
  | .original b items =>
    b = a ∧ a < o.next ∧ h.visible a ∧ o.list a ≠ [] ∧ items.map (·.handle) = o.list a ∧
      ∀ s ∈ items, kept h s

structure NodeKept (o h : Heap) (s : SavedNode) : Prop where
  cell : s.cell.map (fun _ => ()) = (o.node s.handle).map fun _ => ()
  pins : ListKept o h (PinKept o) (o.node s.handle).pins s.cell.pins

structure GraphKept (o h : Heap) (s : SavedGraph) : Prop where
  cell : s.cell.map (fun _ => ()) = (o.graph s.handle).map fun _ => ()
  nodes : ListKept o h (NodeKept o) (o.graph s.handle).nodes s.cell.nodes

def MemberKept (o : Heap) (_ : Heap) (s : SavedMember) : Prop := s.cell = o.member s.handle

structure BlueprintKept (o h : Heap) (s : SavedBlueprint) : Prop where
  cell : s.cell.map (fun _ => ()) (fun _ => ()) =
    (o.blueprint s.handle).map (fun _ => ()) fun _ => ()
  members : ListKept o h (MemberKept o) (o.blueprint s.handle).members s.cell.members
  graphs : ListKept o h (GraphKept o) (o.blueprint s.handle).graphs s.cell.graphs

theorem PinKept.mono {s : SavedPin} (k : PinKept o h s) (hs : Spares h h') : PinKept o h' s where
  cell := by
    have htexts : s.cell.map h'.texts = s.cell.map h.texts := by
      rw [PinCell.map, hs.texts _ k.hidden]
      rfl
    rw [htexts, k.cell]
  hidden := hs.hidden _ k.hidden

theorem ListKept.mono {kept : Heap → Saved α → Prop}
    (hkept : ∀ {s}, kept h s → kept h' s) {a : Address} {l : SavedList (Saved α)}
    (k : ListKept o h kept a l) (hs : Spares h h') : ListKept o h' kept a l := by
  cases l with
  | copy b =>
    obtain ⟨hempty, hcopy, hhidden⟩ := k
    exact ⟨hempty, (hs.list b hhidden).trans hcopy, hs.hidden b hhidden⟩
  | original b items =>
    obtain ⟨hb, hlt, hvisible, hne, hitems, hall⟩ := k
    exact ⟨hb, hlt, hs.visible a hvisible, hne, hitems, fun s hmem => hkept (hall s hmem)⟩

theorem NodeKept.mono {s : SavedNode} (k : NodeKept o h s) (hs : Spares h h') : NodeKept o h' s :=
  ⟨k.cell, k.pins.mono (fun k => k.mono hs) hs⟩

theorem GraphKept.mono {s : SavedGraph} (k : GraphKept o h s) (hs : Spares h h') :
    GraphKept o h' s :=
  ⟨k.cell, k.nodes.mono (fun k => k.mono hs) hs⟩

theorem MemberKept.mono {s : SavedMember} (k : MemberKept o h s) : MemberKept o h' s := k

theorem BlueprintKept.mono {s : SavedBlueprint} (k : BlueprintKept o h s) (hs : Spares h h') :
    BlueprintKept o h' s :=
  ⟨k.cell, k.members.mono MemberKept.mono hs, k.graphs.mono (fun k => k.mono hs) hs⟩

theorem PinKept.read {s : SavedPin} (k : PinKept o h s) : h.readSavedPin s = o.readPin s.handle := by
  simp only [readSavedPin, readPin, k.cell]

theorem ListKept.read {β : Type} {kept : Heap → Saved α → Prop} {a : Address}
    {l : SavedList (Saved α)} {old : Handle → β} {saved : Saved α → β}
    (k : ListKept o h kept a l) (live : Handle → β) (hread : ∀ s, kept h s → saved s = old s.handle) :
    h.readSavedList live saved l = (o.list a).map old := by
  cases l with
  | copy b =>
    obtain ⟨hempty, hcopy, -⟩ := k
    simp [readSavedList, hempty, hcopy]
  | original b items =>
    obtain ⟨-, -, -, -, hitems, hall⟩ := k
    rw [readSavedList, ← hitems, List.map_map]
    exact List.map_congr_left fun s hmem => hread s (hall s hmem)

theorem NodeKept.read {s : SavedNode} (k : NodeKept o h s) :
    h.readSavedNode s = o.readNode s.handle := by
  have hpins := k.pins.read h.readPin (fun _ k => PinKept.read k)
  have hcell := k.cell
  simp only [NodeCell.map, NodeCell.mk.injEq] at hcell
  simp only [readSavedNode, readNode, NodeCell.map, hpins, hcell]

theorem GraphKept.read {s : SavedGraph} (k : GraphKept o h s) :
    h.readSavedGraph s = o.readGraph s.handle := by
  have hnodes := k.nodes.read h.readNode (fun _ k => NodeKept.read k)
  have hcell := k.cell
  simp only [GraphCell.map, GraphCell.mk.injEq] at hcell
  simp only [readSavedGraph, readGraph, GraphCell.map, hnodes, hcell]

theorem MemberKept.read {s : SavedMember} (k : MemberKept o h s) :
    readSavedMember s = o.readMember s.handle := by
  rw [readSavedMember, readMember, k]

theorem BlueprintKept.read {s : SavedBlueprint} (k : BlueprintKept o h s) :
    h.readSavedBlueprint s = o.readBlueprint s.handle := by
  have hmembers := k.members.read h.readMember (fun _ k => MemberKept.read k)
  have hgraphs := k.graphs.read h.readGraph (fun _ k => GraphKept.read k)
  have hcell := k.cell
  simp only [BlueprintCell.map, BlueprintCell.mk.injEq] at hcell
  simp only [readSavedBlueprint, readBlueprint, BlueprintCell.map, hmembers, hgraphs, hcell]

/-- While the state is saved the heap gets more hidden lists and is else as it was. -/
structure Extends (o h : Heap) : Prop where
  pin : h.pin = o.pin
  node : h.node = o.node
  graph : h.graph = o.graph
  member : h.member = o.member
  blueprint : h.blueprint = o.blueprint
  list : ∀ a < o.next, h.list a = o.list a
  texts : ∀ a < o.next, h.texts a = o.texts a
  visible : h.visible = o.visible
  registry : h.registry = o.registry
  next : o.next ≤ h.next

theorem Extends.refl (o : Heap) : Extends o o :=
  ⟨rfl, rfl, rfl, rfl, rfl, fun _ _ => rfl, fun _ _ => rfl, rfl, rfl, Nat.le_refl _⟩

theorem Extends.hideList (e : Extends o h) (items : List Handle) :
    Extends o (h.hideList items).2 :=
  { e with
    list := fun a ha =>
      (Function.update_of_ne (Nat.ne_of_lt (Nat.lt_of_lt_of_le ha e.next)) _ _).trans (e.list a ha)
    next := Nat.le_succ_of_le e.next }

theorem Extends.hideTexts (e : Extends o h) (items : List String) :
    Extends o (h.hideTexts items).2 :=
  { e with
    texts := fun a ha =>
      (Function.update_of_ne (Nat.ne_of_lt (Nat.lt_of_lt_of_le ha e.next)) _ _).trans (e.texts a ha)
    next := Nat.le_succ_of_le e.next }

theorem Extends.not_visible_next (e : Extends o h) (ho : o.Sound) : ¬ h.visible h.next := by
  intro hvisible
  have hlt := ho.lt h.next (e.visible ▸ hvisible)
  exact absurd e.next (Nat.not_le_of_lt hlt)

/-- Saving an object only adds hidden lists, and what is saved is kept. -/
structure Saves (o : Heap) (save : Handle → Heap → Saved α × Heap)
    (kept : Heap → Saved α → Prop) : Prop where
  handle : ∀ x h, (save x h).1.handle = x
  extend : ∀ {h} x, Extends o h → Extends o (save x h).2
  spares : ∀ {h} x, Extends o h → Spares h (save x h).2
  keep : ∀ {h} x, Extends o h → kept (save x h).2 (save x h).1
  mono : ∀ {h h' s}, kept h s → Spares h h' → kept h' s

variable {save : Handle → Heap → Saved α × Heap} {kept : Heap → Saved α → Prop}

theorem Saves.each (hsave : Saves o save kept) (xs : List Handle) (e : Extends o h) :
    let r := Heap.each save xs h
    r.1.map (·.handle) = xs ∧ Extends o r.2 ∧ Spares h r.2 ∧ ∀ s ∈ r.1, kept r.2 s := by
  induction xs generalizing h with
  | nil => exact ⟨rfl, e, .refl h, nofun⟩
  | cons x xs ih =>
    obtain ⟨hhandles, hextend, hspares, hkept⟩ := ih (hsave.extend x e)
    refine ⟨congrArg₂ List.cons (hsave.handle x h) hhandles, hextend,
      (hsave.spares x e).trans hspares, ?_⟩
    intro s hs
    rcases List.mem_cons.mp hs with rfl | hs
    · exact hsave.mono (hsave.keep x e) hspares
    · exact hkept s hs

theorem Saves.list (hsave : Saves o save kept) (ho : o.Sound) {a : Address} (ha : o.visible a)
    (e : Extends o h) :
    let r := saveList save a h
    Extends o r.2 ∧ Spares h r.2 ∧ ListKept o r.2 kept a r.1 := by
  have hlist : h.list a = o.list a := e.list a (ho.lt a ha)
  by_cases hempty : o.list a = []
  · simp only [saveList, hlist, hempty, if_true]
    exact ⟨e.hideList [], spares_hideList h [], hempty, Function.update_self _ _ _,
      Nat.lt_succ_self _, e.not_visible_next ho⟩
  · simp only [saveList, hlist, hempty, if_false]
    obtain ⟨hhandles, hextend, hspares, hkept⟩ := hsave.each (o.list a) e
    exact ⟨hextend, hspares, rfl, ho.lt a ha, hextend.visible ▸ ha, hempty, hhandles, hkept⟩

theorem saves_pin (ho : o.Sound) : Saves o savePin (PinKept o) where
  handle _ _ := rfl
  extend _ e := e.hideTexts _
  spares {h} _ _ := spares_hideTexts h _
  keep {h} p e := by
    have hold : h.texts (o.pin p).linkedTo = o.texts (o.pin p).linkedTo :=
      e.texts _ (ho.lt _ (ho.pin p))
    refine ⟨?_, Nat.lt_succ_self _, e.not_visible_next ho⟩
    simp only [savePin, PinCell.map, hideTexts, Function.update_self, e.pin, hold]
  mono := PinKept.mono

theorem saves_node (ho : o.Sound) : Saves o saveNode (NodeKept o) where
  handle _ _ := rfl
  extend n e := by
    simp only [saveNode, e.node]
    exact ((saves_pin ho).list ho (ho.node n) e).1
  spares n e := by
    simp only [saveNode, e.node]
    exact ((saves_pin ho).list ho (ho.node n) e).2.1
  keep n e := by
    obtain ⟨-, -, hpins⟩ := (saves_pin ho).list ho (ho.node n) e
    simp only [saveNode, e.node]
    exact ⟨rfl, hpins⟩
  mono := NodeKept.mono

theorem saves_graph (ho : o.Sound) : Saves o saveGraph (GraphKept o) where
  handle _ _ := rfl
  extend g e := by
    simp only [saveGraph, e.graph]
    exact ((saves_node ho).list ho (ho.graph g) e).1
  spares g e := by
    simp only [saveGraph, e.graph]
    exact ((saves_node ho).list ho (ho.graph g) e).2.1
  keep g e := by
    obtain ⟨-, -, hnodes⟩ := (saves_node ho).list ho (ho.graph g) e
    simp only [saveGraph, e.graph]
    exact ⟨rfl, hnodes⟩
  mono := GraphKept.mono

theorem saves_member : Saves o saveMember (MemberKept o) where
  handle _ _ := rfl
  extend _ e := e
  spares {h} _ _ := .refl h
  keep v e := congrFun e.member v
  mono k _ := k

theorem saves_lists (ho : o.Sound) (b : Handle) (e : Extends o h) :
    let r := saveList saveMember (o.blueprint b).members h
    let s := saveList saveGraph (o.blueprint b).graphs r.2
    Extends o s.2 ∧ Spares h s.2 ∧
      ListKept o s.2 (MemberKept o) (o.blueprint b).members r.1 ∧
      ListKept o s.2 (GraphKept o) (o.blueprint b).graphs s.1 := by
  obtain ⟨hextend, hspares, hmembers⟩ := saves_member.list ho (ho.members b) e
  obtain ⟨hextend', hspares', hgraphs⟩ := (saves_graph ho).list ho (ho.graphs b) hextend
  exact ⟨hextend', hspares.trans hspares', hmembers.mono MemberKept.mono hspares', hgraphs⟩

theorem saves_blueprint (ho : o.Sound) : Saves o saveBlueprint (BlueprintKept o) where
  handle _ _ := rfl
  extend b e := by
    simp only [saveBlueprint, e.blueprint]
    exact (saves_lists ho b e).1
  spares b e := by
    simp only [saveBlueprint, e.blueprint]
    exact (saves_lists ho b e).2.1
  keep {h} b e := by
    obtain ⟨-, -, hmembers, hgraphs⟩ := saves_lists ho b e
    simp only [saveBlueprint, e.blueprint]
    exact ⟨rfl, hmembers, hgraphs⟩
  mono := BlueprintKept.mono

end BlueprintPatch.Heap

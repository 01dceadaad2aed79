import BlueprintPatch.Proofs.Heap

/-! What a program may write. Its writes leave the hidden lists alone, and every field goes on
holding a list that programs can get hold of. All that may happen to a model is done by such
writes. -/
namespace BlueprintPatch.Heap

/-- A list that no program can get hold of. -/
def Hidden (h : Heap) (a : Address) : Prop := a < h.next ∧ ¬ h.visible a

/-- Every field holds a list that programs can get hold of. -/
structure Sound (h : Heap) : Prop where
  lt : ∀ a, h.visible a → a < h.next
  pin : ∀ p, h.visible (h.pin p).linkedTo
  node : ∀ n, h.visible (h.node n).pins
  graph : ∀ g, h.visible (h.graph g).nodes
  members : ∀ b, h.visible (h.blueprint b).members
  graphs : ∀ b, h.visible (h.blueprint b).graphs

/-- The hidden lists stay hidden, with what is in them. -/
structure Spares (h h' : Heap) : Prop where
  next : h.next ≤ h'.next
  visible : ∀ a, h.visible a → h'.visible a
  hidden : ∀ a, h.Hidden a → h'.Hidden a
  list : ∀ a, h.Hidden a → h'.list a = h.list a
  texts : ∀ a, h.Hidden a → h'.texts a = h.texts a

theorem Spares.refl (h : Heap) : Spares h h :=
  ⟨Nat.le_refl _, fun _ => id, fun _ => id, fun _ _ => rfl, fun _ _ => rfl⟩

theorem Spares.trans {h h' h'' : Heap} (s : Spares h h') (t : Spares h' h'') : Spares h h'' where
  next := Nat.le_trans s.next t.next
  visible a ha := t.visible a (s.visible a ha)
  hidden a ha := t.hidden a (s.hidden a ha)
  list a ha := (t.list a (s.hidden a ha)).trans (s.list a ha)
  texts a ha := (t.texts a (s.hidden a ha)).trans (s.texts a ha)

theorem Hidden.ne_next {h : Heap} {a : Address} (ha : h.Hidden a) : a ≠ h.next := Nat.ne_of_lt ha.1

theorem Hidden.ne_of_visible {h : Heap} {a b : Address} (ha : h.Hidden a) (hb : h.visible b) :
    a ≠ b := by
  rintro rfl
  exact ha.2 hb

theorem spares_fill {h : Heap} {a : Address} (ha : h.visible a) (items : List Handle) :
    Spares h (h.fill a items) where
  next := Nat.le_refl _
  visible _ := id
  hidden _ := id
  list _ hb := Function.update_of_ne (hb.ne_of_visible ha) _ _
  texts _ _ := rfl

theorem spares_fillTexts {h : Heap} {a : Address} (ha : h.visible a) (items : List String) :
    Spares h (h.fillTexts a items) where
  next := Nat.le_refl _
  visible _ := id
  hidden _ := id
  list _ _ := rfl
  texts _ hb := Function.update_of_ne (hb.ne_of_visible ha) _ _

theorem spares_hideList (h : Heap) (items : List Handle) : Spares h (h.hideList items).2 where
  next := Nat.le_succ _
  visible _ := id
  hidden _ ha := ⟨Nat.lt_succ_of_lt ha.1, ha.2⟩
  list _ ha := Function.update_of_ne ha.ne_next _ _
  texts _ _ := rfl

theorem spares_hideTexts (h : Heap) (items : List String) : Spares h (h.hideTexts items).2 where
  next := Nat.le_succ _
  visible _ := id
  hidden _ ha := ⟨Nat.lt_succ_of_lt ha.1, ha.2⟩
  list _ _ := rfl
  texts _ ha := Function.update_of_ne ha.ne_next _ _

theorem spares_newList (h : Heap) (items : List Handle) : Spares h (h.newList items).2 where
  next := Nat.le_succ _
  visible _ := .inr
  hidden _ ha := ⟨Nat.lt_succ_of_lt ha.1, not_or_intro ha.ne_next ha.2⟩
  list _ ha := Function.update_of_ne ha.ne_next _ _
  texts _ _ := rfl

theorem spares_newTexts (h : Heap) (items : List String) : Spares h (h.newTexts items).2 where
  next := Nat.le_succ _
  visible _ := .inr
  hidden _ ha := ⟨Nat.lt_succ_of_lt ha.1, not_or_intro ha.ne_next ha.2⟩
  list _ _ := rfl
  texts _ ha := Function.update_of_ne ha.ne_next _ _

theorem Sound.of_fields {h h' : Heap} (hs : h.Sound) (hlt : ∀ a, h'.visible a → a < h'.next)
    (hvisible : ∀ a, h.visible a → h'.visible a) (hpin : h'.pin = h.pin) (hnode : h'.node = h.node)
    (hgraph : h'.graph = h.graph) (hblueprint : h'.blueprint = h.blueprint) : h'.Sound where
  lt := hlt
  pin p := hvisible _ (hpin ▸ hs.pin p)
  node n := hvisible _ (hnode ▸ hs.node n)
  graph g := hvisible _ (hgraph ▸ hs.graph g)
  members b := hvisible _ (hblueprint ▸ hs.members b)
  graphs b := hvisible _ (hblueprint ▸ hs.graphs b)

theorem Sound.fill {h : Heap} (hs : h.Sound) (a : Address) (items : List Handle) :
    (h.fill a items).Sound :=
  hs.of_fields hs.lt (fun _ => id) rfl rfl rfl rfl

theorem Sound.newList {h : Heap} (hs : h.Sound) (items : List Handle) :
    (h.newList items).2.Sound := by
  refine hs.of_fields ?_ (fun _ => .inr) rfl rfl rfl rfl
  rintro a (rfl | ha)
  · exact Nat.lt_succ_self _
  · exact Nat.lt_succ_of_lt (hs.lt a ha)

theorem Sound.newTexts {h : Heap} (hs : h.Sound) (items : List String) :
    (h.newTexts items).2.Sound := by
  refine hs.of_fields ?_ (fun _ => .inr) rfl rfl rfl rfl
  rintro a (rfl | ha)
  · exact Nat.lt_succ_self _
  · exact Nat.lt_succ_of_lt (hs.lt a ha)

theorem update_induction {α : Type} {P : α → Prop} {f : Handle → α} (hf : ∀ x, P (f x)) {y : Handle}
    {c : α} (hc : P c) (x : Handle) : P (Function.update f y c x) := by
  by_cases hx : x = y
  · subst hx
    rwa [Function.update_self]
  · rw [Function.update_of_ne hx]
    exact hf x

theorem Sound.setPin {h : Heap} (hs : h.Sound) (p : Handle) {c : PinCell Address}
    (hc : h.visible c.linkedTo) : (h.setPin p c).Sound :=
  { hs with pin := update_induction (P := fun c : PinCell Address => h.visible c.linkedTo) hs.pin hc }

theorem Sound.setNode {h : Heap} (hs : h.Sound) (n : Handle) {c : NodeCell Address}
    (hc : h.visible c.pins) : (h.setNode n c).Sound :=
  { hs with node := update_induction (P := fun c : NodeCell Address => h.visible c.pins) hs.node hc }

theorem Sound.setGraph {h : Heap} (hs : h.Sound) (g : Handle) {c : GraphCell Address}
    (hc : h.visible c.nodes) : (h.setGraph g c).Sound :=
  { hs with graph := update_induction (P := fun c : GraphCell Address => h.visible c.nodes) hs.graph hc }

theorem Sound.setBlueprint {h : Heap} (hs : h.Sound) (b : Handle)
    {c : BlueprintCell Address Address} (hm : h.visible c.members) (hg : h.visible c.graphs) :
    (h.setBlueprint b c).Sound :=
  { hs with
    members := update_induction (P := fun c : BlueprintCell Address Address => h.visible c.members) hs.members hm
    graphs := update_induction (P := fun c : BlueprintCell Address Address => h.visible c.graphs) hs.graphs hg }

theorem spares_of_lists {h h' : Heap} (hnext : h'.next = h.next) (hvisible : h'.visible = h.visible)
    (hlist : h'.list = h.list) (htexts : h'.texts = h.texts) : Spares h h' where
  next := Nat.le_of_eq hnext.symm
  visible a ha := hvisible ▸ ha
  hidden a ha := by
    rw [Hidden, hnext, hvisible]
    exact ha
  list a _ := congrFun hlist a
  texts a _ := congrFun htexts a

theorem Write.spares {h h' : Heap} (w : Write h h') : Spares h h' := by
  cases w with
  | fill a items ha => exact spares_fill ha items
  | fillTexts a items ha => exact spares_fillTexts ha items
  | newList items => exact spares_newList h items
  | newTexts items => exact spares_newTexts h items
  | _ => exact spares_of_lists rfl rfl rfl rfl

theorem Write.sound {h h' : Heap} (w : Write h h') (hs : h.Sound) : h'.Sound := by
  cases w with
  | pin p c hc => exact hs.setPin p hc
  | node n c hc => exact hs.setNode n hc
  | graph g c hc => exact hs.setGraph g hc
  | blueprint b c hm hg => exact hs.setBlueprint b hm hg
  | newList items => exact hs.newList items
  | newTexts items => exact hs.newTexts items
  | _ => exact hs.of_fields hs.lt (fun _ => id) rfl rfl rfl rfl

abbrev Writes : Heap → Heap → Prop := Relation.ReflTransGen Write

theorem Writes.spares {h h' : Heap} (ws : Writes h h') : Spares h h' := by
  induction ws with
  | refl => exact .refl h
  | tail _ w ih => exact ih.trans w.spares

theorem Writes.sound {h h' : Heap} (ws : Writes h h') (hs : h.Sound) : h'.Sound := by
  induction ws with
  | refl => exact hs
  | tail _ w ih => exact w.sound ih

theorem writes_foldl {α : Type} {f : Heap → α → Heap}
    (hf : ∀ {h : Heap}, h.Sound → ∀ a, Writes h (f h a)) (as : List α) {h : Heap} (hs : h.Sound) :
    Writes h (as.foldl f h) := by
  induction as generalizing h with
  | nil => exact .refl
  | cons a as ih => exact (hf hs a).trans (ih ((hf hs a).sound hs))

theorem writes_putPin {h : Heap} (p : Pin) : Writes h (h.putPin p) :=
  (Relation.ReflTransGen.single (.newTexts p.linkedTo)).tail (.pin _ _ (.inl rfl))

theorem writes_putNode {h : Heap} (hs : h.Sound) (x : Node) : Writes h (h.putNode x) := by
  have hpins : Writes h (x.pins.foldl (fun h p => h.putPin p) h) :=
    writes_foldl (fun _ p => writes_putPin p) x.pins hs
  exact (hpins.tail (.newList _)).tail (.node _ _ (.inl rfl))

theorem writes_createNode {h : Heap} (hs : h.Sound) (g : Handle) (kind : NodeKind)
    (memberName : Option String) (posX posY : Binary64) :
    Writes h (h.createNode g kind memberName posX posY) := by
  unfold createNode
  split
  · exact .refl
  · have hfill := fun items => Write.fill (h := h) (h.graph g).nodes items (hs.graph g)
    exact ((Relation.ReflTransGen.single (hfill _)).trans
      (writes_putNode (hs.fill _ _) _)).tail (.supply _)

theorem writes_unlinkPin {h : Heap} (ids : List String) (p : Handle) :
    Writes h (h.unlinkPin ids p) := by
  simp only [unlinkPin]
  split
  · exact .refl
  · exact (Relation.ReflTransGen.single (.newTexts _)).tail (.pin _ _ (.inl rfl))

theorem writes_dropNode {h : Heap} (g n : Handle) : Writes h (h.dropNode g n) :=
  (Relation.ReflTransGen.single (.newList _)).tail (.graph _ _ (.inl rfl))

theorem writes_deleteNode {h : Heap} (hs : h.Sound) (n : Handle) : Writes h (h.deleteNode n) := by
  unfold deleteNode
  split
  · exact .refl
  · next b g _ =>
    have hdrop := writes_dropNode (h := h) g n
    exact hdrop.trans (writes_foldl (fun _ p => writes_unlinkPin _ p) _ (hdrop.sound hs))

theorem writes_rewire {h : Heap} (hs : h.Sound) (b : Handle) (old new : String) :
    Writes h (h.rewire b old new) := by
  refine writes_foldl (fun {h'} hs' n => ?_) _ hs
  simp only [rewireNode]
  split
  · exact (writes_putNode hs' _).tail (.supply _)
  · exact .refl

theorem writes_addLink {h : Heap} (hs : h.Sound) (p : Handle) (id : String) :
    Writes h (h.addLink p id) := by
  simp only [addLink]
  split
  · exact .refl
  · exact .single (.fillTexts _ _ (hs.pin p))

/-- All that may happen to a model is done by writes of a program. -/
theorem Mutation.writes {h h' : Heap} (m : Mutation h h') (hs : h.Sound) : Writes h h' := by
  cases m with
  | createNode g kind memberName posX posY => exact writes_createNode hs g kind memberName posX posY
  | deleteNode n => exact writes_deleteNode hs n
  | renameVariable v new => exact .single (.member _ _)
  | rewire b old new => exact writes_rewire hs b old new
  | linkPins p q =>
    have hfirst := writes_addLink hs p (h.pin q).id
    exact hfirst.trans (writes_addLink (hfirst.sound hs) q (h.pin p).id)
  | markModified b => exact .single (.blueprint _ _ (hs.members b) (hs.graphs b))
  | addBlueprint b => exact .single (.registry _)
  | removeBlueprint b => exact .single (.registry _)
  | byHand w => exact .single w

end BlueprintPatch.Heap

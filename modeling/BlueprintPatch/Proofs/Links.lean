import BlueprintPatch.Proofs.Rebuilding

/-! Links. A link is held at both ends: whatever id a pin lists belongs to a pin that lists the
first one back. Adding and deleting nodes keep it so. A rename rebuilds nodes and forgets the pins
that their kind does not have; it keeps it so exactly if those are linked only among themselves. -/
namespace BlueprintPatch

/-- The ids are distinct, and every listed id belongs to a pin that lists the first one back. -/
structure Linked (t : List Joint) : Prop where
  distinct : (t.map (·.id)).Nodup
  returned : ∀ p ∈ t, ∀ id ∈ p.links, ∃ q ∈ t, q.id = id ∧ p.id ∈ q.links

/-- No id with a number from `n` on is in use. -/
def FreshFrom (n : Nat) (t : List Joint) : Prop := ∀ p ∈ t, ¬ IsGeneratedFrom n p.id

theorem Linked.perm {t u : List Joint} (h : Linked t) (htu : t.Perm u) : Linked u where
  distinct := (htu.map (·.id)).nodup h.distinct
  returned := by
    intro p hp id hid
    obtain ⟨q, hq, hback⟩ := h.returned p (htu.mem_iff.mpr hp) id hid
    exact ⟨q, htu.mem_iff.mp hq, hback⟩

theorem Linked.id_ne {t u : List Joint} (h : Linked (t ++ u)) {p q : Joint} (hp : p ∈ t)
    (hq : q ∈ u) : p.id ≠ q.id := by
  have hnodup := h.distinct
  rw [List.map_append] at hnodup
  exact (List.nodup_append.mp hnodup).2.2 p.id (List.mem_map_of_mem hp) q.id
    (List.mem_map_of_mem hq)

/-- The pin without its links to any of `ids`. -/
def Joint.unlink (ids : List String) (p : Joint) : Joint :=
  ⟨p.id, p.links.filter (· ∉ ids)⟩

theorem linked_unlink {gone left : List Joint} (h : Linked (gone ++ left)) :
    Linked (left.map (Joint.unlink (gone.map (·.id)))) where
  distinct := by
    have hnodup := h.distinct
    rw [List.map_append] at hnodup
    rw [List.map_map]
    exact (List.nodup_append.mp hnodup).2.1
  returned := by
    intro p' hp' id hid
    obtain ⟨p, hp, rfl⟩ := List.mem_map.mp hp'
    simp only [Joint.unlink, List.mem_filter, decide_eq_true_eq] at hid
    obtain ⟨q, hq, rfl, hback⟩ := h.returned p (List.mem_append_right _ hp) id hid.1
    rcases List.mem_append.mp hq with hgone | hleft
    · exact absurd (List.mem_map_of_mem hgone) hid.2
    · refine ⟨q.unlink _, List.mem_map_of_mem hleft, rfl, ?_⟩
      simp only [Joint.unlink, List.mem_filter, decide_eq_true_eq, List.mem_map]
      refine ⟨hback, ?_⟩
      rintro ⟨x, hx, he⟩
      exact h.id_ne hx hp he

theorem mem_made {n m : Nat} {made : List Joint} (h : Made n m made) {p : Joint}
    (hp : p ∈ made) : p.links = [] ∧ ∃ k, n ≤ k ∧ k < m ∧ p.id = generatedId k := by
  obtain ⟨numbers, -, hbound, rfl⟩ := h
  obtain ⟨k, hk, rfl⟩ := List.mem_map.mp hp
  exact ⟨rfl, k, (hbound k hk).1, (hbound k hk).2, rfl⟩

theorem nodup_ids_made {n m : Nat} {made : List Joint} (h : Made n m made) :
    (made.map (·.id)).Nodup := by
  obtain ⟨numbers, hnodup, -, rfl⟩ := h
  rw [List.map_map]
  exact List.pairwise_map.mpr (hnodup.imp fun hne he => hne (generatedId_inj he))

/-- Rebuilding keeps the links exactly if the dropped pins are linked only among themselves. -/
theorem linked_rebuilt_iff {n m : Nat} {t d u : List Joint} (h : Linked t) (hfresh : FreshFrom n t)
    (hr : Rebuilt n m t d u) : Linked u ↔ ∀ p ∈ d, ∀ id ∈ p.links, ∃ q ∈ d, q.id = id := by
  obtain ⟨kept, made, ht, hu, hmade⟩ := hr
  have hl : Linked (kept ++ d) := h.perm ht
  have hold : ∀ p ∈ kept ++ d, ¬ IsGeneratedFrom n p.id := fun p hp => hfresh p (ht.mem_iff.mpr hp)
  have hnew : ∀ p ∈ made, IsGeneratedFrom n p.id := by
    intro p hp
    obtain ⟨-, k, hk, -, hid⟩ := mem_made hmade hp
    exact ⟨k, hk, hid⟩
  constructor
  · intro hlu p hp id hid
    obtain ⟨q, hq, rfl, hback⟩ := hl.returned p (List.mem_append_right _ hp) id hid
    rcases List.mem_append.mp hq with hkept | hdropped
    · -- A pin that stays would have to be linked back by the dropped one, or by a new one.
      obtain ⟨r, hr, he, -⟩ :=
        hlu.returned q (hu.mem_iff.mpr (List.mem_append_left _ hkept)) p.id hback
      rcases List.mem_append.mp (hu.mem_iff.mp hr) with hr | hr
      · exact absurd he (hl.id_ne hr hp)
      · exact absurd (he ▸ hnew r hr) (hold p (List.mem_append_right _ hp))
    · exact ⟨q, hdropped, rfl⟩
  · intro hd
    refine Linked.perm ⟨?_, ?_⟩ hu.symm
    · have hnodup := hl.distinct
      rw [List.map_append] at hnodup ⊢
      refine List.nodup_append.mpr
        ⟨(List.nodup_append.mp hnodup).1, nodup_ids_made hmade, fun a ha b hb hab => ?_⟩
      obtain ⟨p, hp, rfl⟩ := List.mem_map.mp ha
      obtain ⟨q, hq, rfl⟩ := List.mem_map.mp hb
      exact hold p (List.mem_append_left _ hp) (hab ▸ hnew q hq)
    · intro p hp id hid
      rcases List.mem_append.mp hp with hkept | hp
      · obtain ⟨q, hq, rfl, hback⟩ := hl.returned p (List.mem_append_left _ hkept) id hid
        rcases List.mem_append.mp hq with hq | hq
        · exact ⟨q, List.mem_append_left _ hq, rfl, hback⟩
        · obtain ⟨r, hr, he⟩ := hd q hq p.id hback
          exact absurd he.symm (hl.id_ne hkept hr)
      · rw [(mem_made hmade hp).1] at hid
        exact absurd hid List.not_mem_nil

theorem freshFrom_rebuilt {n m : Nat} {t d u : List Joint} (hfresh : FreshFrom n t) (hnm : n ≤ m)
    (hr : Rebuilt n m t d u) : FreshFrom m u := by
  obtain ⟨kept, made, ht, hu, hmade⟩ := hr
  intro p hp
  rcases List.mem_append.mp (hu.mem_iff.mp hp) with hkept | hp
  · exact fun hg => hfresh p (ht.mem_iff.mpr (List.mem_append_left _ hkept))
      (isGeneratedFrom_mono hnm hg)
  · obtain ⟨-, k, -, hk, hid⟩ := mem_made hmade hp
    rw [hid]
    exact not_isGeneratedFrom_generatedId hk

def Blueprint.Linked (b : Blueprint) : Prop := BlueprintPatch.Linked (joints b.pins)

def Blueprint.FreshFrom (n : Nat) (b : Blueprint) : Prop :=
  BlueprintPatch.FreshFrom n (joints b.pins)

/-- The pins that the operation drops without a word to the others are linked only among
themselves. -/
def Operation.KeepsLinks (b : Blueprint) : Operation → Prop
  | .variableRename op => ∀ p ∈ op.dropped b, ∀ id ∈ p.linkedTo, ∃ q ∈ op.dropped b, q.id = id
  | _ => True

theorem forall_joints {P : Joint → Prop} {ps : List Pin} :
    (∀ t ∈ joints ps, P t) ↔ ∀ p ∈ ps, P p.joint := by
  simp [joints]

theorem exists_joints {P : Joint → Prop} {ps : List Pin} :
    (∃ t ∈ joints ps, P t) ↔ ∃ p ∈ ps, P p.joint := by
  constructor
  · rintro ⟨t, ht, hP⟩
    obtain ⟨p, hp, rfl⟩ := List.mem_map.mp ht
    exact ⟨p, hp, hP⟩
  · rintro ⟨p, hp, hP⟩
    exact ⟨p.joint, List.mem_map_of_mem hp, hP⟩

theorem joints_removeNode? {p : Node → Bool} {b c : Blueprint} (h : b.removeNode? p = some c) :
    ∃ gone left, (joints b.pins).Perm (gone ++ left) ∧
      joints c.pins = left.map (Joint.unlink (gone.map (·.id))) := by
  obtain ⟨⟨x, left⟩, htake, rfl⟩ := Option.map_eq_some_iff.mp h
  refine ⟨joints x.pins, joints ((left.flatMap (·.nodes)).flatMap (·.pins)), ?_, ?_⟩
  · have hperm := ((perm_of_takeNode? htake).flatMap_right (·.pins)).map Pin.joint
    rwa [List.flatMap_cons, List.map_append] at hperm
  · have hids : (joints x.pins).map (·.id) = x.pins.map (·.id) := by
      simp only [joints, List.map_map]
      rfl
    rw [hids]
    simp only [Blueprint.pins, Blueprint.allNodes, joints, List.flatMap_map, List.map_flatMap,
      Blueprint.mapPins, List.map_map, List.flatMap_assoc]
    rfl

section

variable {op : Operation} {n k : Nat} {b c : Blueprint}

theorem linked_change_iff (h : op.change n b = some (c, k)) (hl : b.Linked) (hf : b.FreshFrom n) :
    c.Linked ↔ op.KeepsLinks b := by
  rcases Operation.change_cases h with
    ⟨r, rfl, -, rfl, -⟩ | ⟨a, t, rfl, hgraph, -, rfl, -⟩ | ⟨d, left, rfl, hleft, rfl, -⟩
  · refine (linked_rebuilt_iff hl hf (r.rebuilt n b)).trans ?_
    simp only [forall_joints, exists_joints]
    rfl
  · refine (linked_rebuilt_iff hl hf (a.rebuilt t n hgraph)).trans ?_
    simp [Operation.KeepsLinks]
  · obtain ⟨gone, stay, hperm, hjoints⟩ := joints_removeNode? hleft
    have hlinked : BlueprintPatch.Linked (joints left.pins) := by
      rw [hjoints]
      exact linked_unlink (BlueprintPatch.Linked.perm hl hperm)
    exact iff_of_true hlinked trivial

theorem freshFrom_change (h : op.change n b = some (c, k)) (hf : b.FreshFrom n) :
    c.FreshFrom (n + k) := by
  rcases Operation.change_cases h with
    ⟨r, rfl, -, rfl, rfl⟩ | ⟨a, t, rfl, hgraph, -, rfl, rfl⟩ | ⟨d, left, rfl, hleft, rfl, rfl⟩
  · exact freshFrom_rebuilt hf (by omega) (r.rebuilt n b)
  · exact freshFrom_rebuilt hf (by omega) (a.rebuilt t n hgraph)
  · obtain ⟨gone, stay, hperm, hjoints⟩ := joints_removeNode? hleft
    intro p hp
    change p ∈ joints left.pins at hp
    rw [hjoints] at hp
    obtain ⟨q, hq, rfl⟩ := List.mem_map.mp hp
    exact hf q (hperm.mem_iff.mpr (List.mem_append_right _ hq))

end

/-- The blueprint with that handle holds its links at both ends, and the ids that are still to be
generated are not those of its pins. -/
def Model.Wired (h : Handle) (m : Model) : Prop :=
  ∀ b ∈ m.loaded, b.handle = h → b.Linked ∧ b.FreshFrom m.next

section

variable {op : Operation} {m m' : Model} {b c : Blueprint} {k : Nat} {h : Handle}

theorem links_step_iff (hleads : op.Leads m m' b c k) (hwired : m.Wired h) :
    (∀ x ∈ m'.loaded, x.handle = h → x.Linked) ↔ (b.handle = h → op.KeepsLinks b) := by
  have hb := Model.mem_of_resolve? hleads.resolved
  have hbc := Operation.sameIdentity_of_change hleads.changed
  have hchange (he : b.handle = h) : c.Linked ↔ op.KeepsLinks b :=
    linked_change_iff hleads.changed (hwired b hb he).1 (hwired b hb he).2
  rw [hleads.result, Model.loaded_draw]
  constructor
  · intro hall he
    exact (hchange he).mp
      (hall c (Model.mem_loaded_update hb hbc.handle.symm) (hbc.handle.trans he))
  · intro hkeeps
    refine Model.forall_loaded_update (fun he => ?_) fun x hx he => (hwired x hx he).1
    have he' := hbc.handle.symm.trans he
    exact (hchange he').mpr (hkeeps he')

theorem wired_step (hleads : op.Leads m m' b c k) (hwired : m.Wired h)
    (hkeeps : b.handle = h → op.KeepsLinks b) : m'.Wired h := by
  have hlinked := (links_step_iff hleads hwired).mpr hkeeps
  have hfresh : ∀ x ∈ m'.loaded, x.handle = h → x.FreshFrom m'.next := by
    have hb := Model.mem_of_resolve? hleads.resolved
    have hbc := Operation.sameIdentity_of_change hleads.changed
    rw [hleads.result]
    refine Model.forall_loaded_update (fun he => ?_) fun x hx he p hp hg =>
      (hwired x hx he).2 p hp (isGeneratedFrom_mono (Nat.le_add_right m.next k) hg)
    exact freshFrom_change hleads.changed (hwired b hb (hbc.handle.symm.trans he)).2
  exact fun x hx he => ⟨hlinked x hx he, hfresh x hx he⟩

end

/-- Every operation on the blueprint with that handle keeps the links, in the model that the ones
before it lead to. -/
def LinksKept (h : Handle) (ops : List RawOperation) (m : Model) : Prop :=
  ∀ before op after m' typed b, ops = before ++ op :: after → runInTurn before m = .ok m' →
    op.typed? = some typed → m'.resolve? typed.header.blueprint = some b → b.handle = h →
      typed.KeepsLinks b

theorem wired_runInTurn {h : Handle} {ops : List RawOperation} {m m' : Model}
    (hrun : runInTurn ops m = .ok m') (hwired : m.Wired h) (hkept : LinksKept h ops m) :
    m'.Wired h := by
  induction ops generalizing m with
  | nil =>
    obtain rfl := Except.ok.inj hrun
    exact hwired
  | cons op ops ih =>
    obtain ⟨next, hstep, hrest⟩ := runInTurn_cons_eq_ok_iff.mp hrun
    obtain ⟨typed, b, c, k, htyped, hleads⟩ := RawOperation.step_eq_ok_iff.mp hstep
    have hfirst := hkept [] op ops m typed b rfl rfl htyped hleads.resolved
    refine ih hrest (wired_step hleads hwired hfirst) ?_
    intro before op' after m₁ typed' b' hops hbefore
    exact hkept (op :: before) op' after m₁ typed' b' (by rw [hops]; rfl)
      (runInTurn_cons_eq_ok_iff.mpr ⟨next, hstep, hbefore⟩)

/-- A single operation keeps the links of a blueprint exactly if it drops no pin that is linked to
one that stays, and a patch of operations that do so keeps them. -/
theorem links_kept_iff {σ : Type} (sink : Sink σ) (text : Json) (e : Engine) (s : σ) (h : Handle)
    (hsink : ∀ report told s, (sink report told s).1.model = told.model)
    (hwired : e.model.Wired h) :
    (∀ (op : RawOperation) typed b m, op.typed? = some typed →
      e.model.resolve? typed.header.blueprint = some b → op.step e.model = .ok m →
      ((∀ c ∈ m.loaded, c.handle = h → c.Linked) ↔ (b.handle = h → typed.KeepsLinks b))) ∧
    (LinksKept h (Document.ofValue text).operations e.model →
      (e.apply sink text s).1.model.Wired h) := by
  constructor
  · intro op typed b m htyped hb hstep
    obtain ⟨c, k, hchange, hm⟩ := (RawOperation.step_iff_change htyped hb).mp hstep
    exact links_step_iff ⟨hb, hchange, hm⟩ hwired
  · intro hkept
    rcases Engine.model_apply sink text e s hsink with hrun | ⟨hloaded, hnext⟩
    · exact wired_runInTurn hrun hwired hkept
    · intro b hb he
      rw [hloaded] at hb
      obtain ⟨hlinked, hfresh⟩ := hwired b hb he
      exact ⟨hlinked, fun p hp hg => hfresh p hp (isGeneratedFrom_mono hnext hg)⟩

/-- A blueprint with a node that gets a variable and has one pin more than such a node needs; that
pin is linked to a pin of another node. -/
def doorDraft : BlueprintDraft :=
  ⟨"Door", "/Game/Door", none, [⟨"Open", "bool", "", false⟩],
    [⟨"EventGraph", .eventGraph,
      [⟨"N", some "G", .variableGet, some "Open", .zero, .zero,
        [⟨some "P", "Open", .output, "bool", "", []⟩,
         ⟨some "Q", "Tag", .output, "name", "", ["R"]⟩]⟩,
       ⟨"M", some "H", .generic, none, .zero, .zero,
        [⟨some "R", "Tag", .input, "name", "", ["Q"]⟩]⟩]⟩], false, 0⟩

def renameOpen (index : Nat) : RawOperation :=
  ⟨index, [("type", .str "variable_rename"), ("blueprint", .str "Door"), ("old_name", .str "Open"),
    ("new_name", .str "Ajar")]⟩

def deleteM (index : Nat) : RawOperation :=
  ⟨index, [("type", .str "node_delete"), ("blueprint", .str "Door"), ("node_id", .str "M")]⟩

def doorEngine : Engine := Engine.new (Model.empty.load doorDraft) 50 "Apply AI Patch"

theorem wired_doorEngine : doorEngine.model.Wired 0 := by
  intro b hb _
  obtain rfl := List.mem_singleton.mp hb
  refine ⟨⟨by decide, by decide⟩, fun p hp => not_isGeneratedFrom_of_short ?_⟩
  revert p
  decide

/-- A rename forgets the additional pin and leaves the link to it. -/
theorem rename_breaks_links :
    ¬ ∀ (op : RawOperation) (m m' : Model),
      (∀ b ∈ m.loaded, b.Linked ∧ b.FreshFrom m.next) → op.step m = .ok m' →
      ∀ c ∈ m'.loaded, c.Linked := by
  intro h
  have hdoor : ∀ b ∈ doorEngine.model.loaded, b.Linked ∧ b.FreshFrom doorEngine.model.next := by
    intro b hb
    exact wired_doorEngine b hb (by obtain rfl := List.mem_singleton.mp hb; rfl)
  obtain ⟨q, hq, hid, -⟩ := (h (renameOpen 0) _ _ hdoor rfl _ (List.Mem.head _)).returned
    ⟨"R", ["Q"]⟩ (by decide) "Q" (by decide)
  revert hq hid
  revert q
  decide

/-- The node at the other end goes first, and then the variable gets its new name. -/
def clearThenRename : Json :=
  .str (braced ("\"operations\":["
    ++ braced "\"type\":\"node_delete\",\"blueprint\":\"Door\",\"node_id\":\"M\"" ++ ","
    ++ braced ("\"type\":\"variable_rename\",\"blueprint\":\"Door\",\"old_name\":\"Open\","
      ++ "\"new_name\":\"Ajar\"") ++ "]"))

set_option maxRecDepth 8000 in
theorem operations_clearThenRename :
    (Document.ofValue clearThenRename).operations = [deleteM 0, renameOpen 1] := by
  rfl

/-- The deletion takes the link away, so the rename drops a pin that is linked to nothing. -/
theorem linksKept_clearThenRename : LinksKept 0 [deleteM 0, renameOpen 1] doorEngine.model := by
  intro before op after m' typed b hops hrun htyped hb _
  rcases List.cons_eq_append_iff.mp hops with ⟨rfl, hcons⟩ | ⟨before, rfl, hrest⟩
  · obtain ⟨rfl, -⟩ := List.cons.inj hcons
    obtain rfl := Option.some.inj htyped
    trivial
  · obtain ⟨rfl, hcons⟩ | ⟨before, -, hnil⟩ := List.cons_eq_append_iff.mp hrest
    · obtain ⟨rfl, -⟩ := List.cons.inj hcons
      obtain rfl := Option.some.inj htyped
      obtain rfl := Except.ok.inj hrun
      obtain rfl := Option.some.inj hb
      intro p hp
      revert p
      decide
    · simp at hnil

/-- The door's nodes are linked. A deletion keeps that so, a rename does not, and it does after the
deletion. -/
theorem links_kept_iff_door :
    (∀ report told s, (silentSink report told s).1.model = told.model) ∧
    doorEngine.model.Wired 0 ∧
    (∃ m, (deleteM 0).step doorEngine.model = .ok m ∧ ∀ c ∈ m.loaded, c.handle = 0 → c.Linked) ∧
    (∃ m, (renameOpen 0).step doorEngine.model = .ok m ∧
      ¬ ∀ c ∈ m.loaded, c.handle = 0 → c.Linked) ∧
    LinksKept 0 (Document.ofValue clearThenRename).operations doorEngine.model ∧
    (doorEngine.apply silentSink clearThenRename ()).1.model.Wired 0 := by
  obtain ⟨hstep, hpatch⟩ :=
    links_kept_iff silentSink clearThenRename doorEngine () 0 (fun _ _ _ => rfl) wired_doorEngine
  have hkept : LinksKept 0 (Document.ofValue clearThenRename).operations doorEngine.model := by
    rw [operations_clearThenRename]
    exact linksKept_clearThenRename
  refine ⟨fun _ _ _ => rfl, wired_doorEngine, ⟨_, rfl, ?_⟩, ⟨_, rfl, fun hlinked => ?_⟩, hkept,
    hpatch hkept⟩
  · exact (hstep (deleteM 0) _ _ _ rfl rfl rfl).mpr fun _ => trivial
  · have hkeeps := (hstep (renameOpen 0) _ _ _ rfl rfl rfl).mp hlinked rfl
    revert hkeeps
    unfold Operation.KeepsLinks
    decide

end BlueprintPatch

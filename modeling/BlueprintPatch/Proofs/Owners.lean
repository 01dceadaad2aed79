import BlueprintPatch.Proofs.Composition
import BlueprintPatch.Proofs.Distinctness
import BlueprintPatch.Proofs.References

/-! Who owns a node. No node of a reachable model is in two places, so a node that is found in the
blueprint that an operation names is the node of no other one: who looks for its owner among all
loaded blueprints comes to the blueprint that was named. -/
namespace BlueprintPatch

def Blueprint.nodeHandles (b : Blueprint) : List Handle := b.allNodes.map (·.handle)

/-- No node is in two places, and none has a number that is still to be drawn. -/
structure Model.Parted (m : Model) : Prop where
  coherent : m.Coherent
  nodup : ∀ b ∈ m.loaded, b.nodeHandles.Nodup
  drawn : ∀ b ∈ m.loaded, ∀ h ∈ b.nodeHandles, h < m.next
  apart : ∀ b ∈ m.loaded, ∀ c ∈ m.loaded, ∀ h ∈ b.nodeHandles, h ∈ c.nodeHandles →
    b.handle = c.handle

/-- No node is in two places: not twice in one blueprint, and not in two blueprints. -/
structure Model.NodesOnce (m : Model) : Prop where
  nodup : ∀ b ∈ m.loaded, b.nodeHandles.Nodup
  owned : ∀ b ∈ m.loaded, ∀ c ∈ m.loaded, ∀ h ∈ b.nodeHandles, h ∈ c.nodeHandles → b = c

theorem Model.Parted.nodesOnce {m : Model} (hm : m.Parted) : m.NodesOnce where
  nodup := hm.nodup
  owned b hb c hc h hhb hhc := hm.coherent b hb c hc (hm.apart b hb c hc h hhb hhc)

section

variable {op : Operation} {n k : Nat} {b c : Blueprint}

theorem nodeHandles_change (h : op.change n b = some (c, k)) :
    ∃ dropped, b.nodeHandles.Perm (c.nodeHandles ++ dropped) ∨
      (0 < k ∧ c.nodeHandles.Perm (n :: b.nodeHandles)) := by
  rcases Operation.change_cases h with
    ⟨r, -, -, rfl, -⟩ | ⟨a, t, -, hgraph, -, rfl, rfl⟩ | ⟨d, left, -, hleft, rfl, -⟩
  · have hsame : (r.rename n b).nodeHandles = b.nodeHandles :=
      map_rewireGraphs (fun _ _ _ => rfl) _ _ _ n b.graphs
    exact ⟨[], .inl (by rw [hsame, List.append_nil])⟩
  · have hhandle : (a.node t n b).handle = n := by
      rw [NodeAdd.node, Blueprint.newNode_eq]
    have hperm := (perm_allNodes_add a (a.node t n b) hgraph).map (·.handle)
    rw [List.map_append, List.map_singleton, hhandle] at hperm
    exact ⟨[], .inr ⟨by omega, hperm.trans List.perm_append_comm⟩⟩
  · obtain ⟨x, rest, hnodes, hrest⟩ := allNodes_removeNode? hleft
    have hsame : left.markModified.nodeHandles = rest.map (·.handle) := hrest _ fun _ _ => rfl
    have hperm : b.nodeHandles.Perm (x.handle :: rest.map (·.handle)) := hnodes.map Node.handle
    refine ⟨[x.handle], .inl ?_⟩
    rw [hsame]
    exact hperm.trans (List.perm_append_singleton x.handle _).symm

theorem mem_nodeHandles_change (h : op.change n b = some (c, k)) {x : Handle}
    (hx : x ∈ c.nodeHandles) : x ∈ b.nodeHandles ∨ (x = n ∧ 0 < k) := by
  obtain ⟨dropped, hperm | ⟨hk, hperm⟩⟩ := nodeHandles_change h
  · exact .inl (hperm.mem_iff.mpr (List.mem_append_left _ hx))
  · rcases List.mem_cons.mp (hperm.mem_iff.mp hx) with rfl | hx
    · exact .inr ⟨rfl, hk⟩
    · exact .inl hx

theorem nodup_nodeHandles_change (h : op.change n b = some (c, k)) (hb : b.nodeHandles.Nodup)
    (hn : ∀ x ∈ b.nodeHandles, x < n) : c.nodeHandles.Nodup := by
  obtain ⟨dropped, hperm | ⟨-, hperm⟩⟩ := nodeHandles_change h
  · exact (List.nodup_append.mp (hperm.nodup_iff.mp hb)).1
  · rw [hperm.nodup_iff, List.nodup_cons]
    exact ⟨fun hmem => Nat.lt_irrefl n (hn n hmem), hb⟩

end

namespace Model.Parted

variable {m m' : Model}

theorem step {op : Operation} {b c : Blueprint} {k : Nat} (hm : m.Parted)
    (h : op.Leads m m' b c k) : m'.Parted := by
  have hb := mem_of_resolve? h.resolved
  have hbc := Operation.sameIdentity_of_change h.changed
  -- The only number that may be new among the nodes of a blueprint is that of the added node.
  have hsupplant : ∀ x ∈ m.loaded, ∀ i ∈ (supplant c x).nodeHandles,
      i ∈ x.nodeHandles ∨ (x.handle = b.handle ∧ i = m.next) := by
    intro x hx i hi
    by_cases he : x.handle = c.handle
    · obtain rfl := hm.coherent x hx b hb (he.trans hbc.handle)
      rw [supplant_of_eq he] at hi
      exact (mem_nodeHandles_change h.changed hi).imp_right fun hnew => ⟨rfl, hnew.1⟩
    · rw [supplant_of_ne he] at hi
      exact .inl hi
  rw [h.result]
  refine ⟨coherent_draw k (coherent_update c hm.coherent), ?_, ?_, ?_⟩
  · exact forall_loaded_update
      (nodup_nodeHandles_change h.changed (hm.nodup b hb) (hm.drawn b hb)) hm.nodup
  · refine forall_loaded_update (fun i hi => ?_) fun x hx i hi =>
      Nat.lt_of_lt_of_le (hm.drawn x hx i hi) (Nat.le_add_right m.next k)
    rcases mem_nodeHandles_change h.changed hi with hold | ⟨rfl, hk⟩
    · exact Nat.lt_of_lt_of_le (hm.drawn b hb i hold) (Nat.le_add_right m.next k)
    · exact Nat.lt_add_of_pos_right hk
  · intro x' hx' y' hy' i hix hiy
    obtain ⟨x, hx, rfl⟩ := List.mem_map.mp hx'
    obtain ⟨y, hy, rfl⟩ := List.mem_map.mp hy'
    have hhandles : x.handle = y.handle := by
      rcases hsupplant x hx i hix with hxi | ⟨hxb, hxi⟩ <;>
        rcases hsupplant y hy i hiy with hyi | ⟨hyb, hyi⟩
      · exact hm.apart x hx y hy i hxi hyi
      · exact absurd (hyi ▸ hm.drawn x hx i hxi) (Nat.lt_irrefl m.next)
      · exact absurd (hxi ▸ hm.drawn y hy i hyi) (Nat.lt_irrefl m.next)
      · exact hxb.trans hyb.symm
    exact (handle_supplant c x).trans (hhandles.trans (handle_supplant c y).symm)

theorem of_loaded_eq (hm : m.Parted) (hloaded : m'.loaded = m.loaded) (hnext : m.next ≤ m'.next) :
    m'.Parted := by
  refine ⟨?_, ?_, ?_, ?_⟩
  · rw [Coherent, hloaded]
    exact hm.coherent
  · rw [hloaded]
    exact hm.nodup
  · rw [hloaded]
    exact fun b hb i hi => Nat.lt_of_lt_of_le (hm.drawn b hb i hi) hnext
  · rw [hloaded]
    exact hm.apart

theorem runInTurn {ops : List RawOperation} (hm : m.Parted) (h : runInTurn ops m = .ok m') :
    m'.Parted :=
  runInTurn_induction (fun hm hleads => hm.step hleads) hm h

end Model.Parted

theorem nodup_drawAll {α β : Type} {make : α → Drawn β} (handles : β → List Nat)
    (hmake : ∀ a n, n ≤ (make a n).2 ∧ (handles (make a n).1).Nodup ∧
      ∀ i ∈ handles (make a n).1, n ≤ i ∧ i < (make a n).2) (as : List α) (n : Nat) :
    ((drawAll make as n).1.flatMap handles).Nodup ∧
      ∀ i ∈ (drawAll make as n).1.flatMap handles, n ≤ i ∧ i < (drawAll make as n).2 := by
  induction as generalizing n with
  | nil => simp [drawAll]
  | cons a as ih =>
    obtain ⟨hle, hnodup, hbound⟩ := hmake a n
    obtain ⟨hnodup', hbound'⟩ := ih (make a n).2
    have hlast := le_drawAll (fun a n => (hmake a n).1) as (make a n).2
    simp only [drawAll, List.flatMap_cons]
    constructor
    · refine List.nodup_append.mpr ⟨hnodup, hnodup', fun i hi j hj hij => ?_⟩
      have h₁ := hbound i hi
      have h₂ := hbound' j hj
      omega
    · intro i hi
      rcases List.mem_append.mp hi with hi | hi
      · have h₁ := hbound i hi
        omega
      · have h₂ := hbound' i hi
        omega

theorem nodeHandles_make (d : BlueprintDraft) (n : Nat) :
    (d.make n).1.nodeHandles.Nodup ∧
      ∀ i ∈ (d.make n).1.nodeHandles, n ≤ i ∧ i < (d.make n).2 := by
  let ofNode (x : Node) : List Nat := [x.handle]
  let ofGraph (g : Graph) : List Nat := g.nodes.flatMap ofNode
  have hnode (x : NodeDraft) (k : Nat) : k ≤ (x.make k).2 ∧ (ofNode (x.make k).1).Nodup ∧
      ∀ i ∈ ofNode (x.make k).1, k ≤ i ∧ i < (x.make k).2 := by
    have hlt : k < (x.make k).2 :=
      Nat.lt_of_lt_of_le (Nat.lt_succ_self k) (le_drawAll PinDraft.le_make x.pins (k + 1))
    refine ⟨Nat.le_of_lt hlt, List.nodup_singleton _, fun i hi => ?_⟩
    obtain rfl : i = k := List.mem_singleton.mp hi
    exact ⟨Nat.le_refl i, hlt⟩
  have hgraph (g : GraphDraft) (k : Nat) : k ≤ (g.make k).2 ∧ (ofGraph (g.make k).1).Nodup ∧
      ∀ i ∈ ofGraph (g.make k).1, k ≤ i ∧ i < (g.make k).2 := by
    obtain ⟨hnodup, hbound⟩ := nodup_drawAll ofNode hnode g.nodes (k + 1)
    refine ⟨g.le_make k, hnodup, fun i hi => ?_⟩
    exact ⟨Nat.le_of_succ_le (hbound i hi).1, (hbound i hi).2⟩
  have hhandles : (d.make n).1.nodeHandles = (d.make n).1.graphs.flatMap ofGraph := by
    rw [Blueprint.nodeHandles, Blueprint.allNodes, List.map_eq_flatMap, List.flatMap_assoc]
  obtain ⟨hnodup, hbound⟩ := nodup_drawAll ofGraph hgraph d.graphs
    (drawAll VariableDraft.make d.members (n + 1)).2
  rw [hhandles]
  refine ⟨hnodup, fun i hi => ⟨?_, (hbound i hi).2⟩⟩
  have hfirst := le_drawAll VariableDraft.le_make d.members (n + 1)
  exact Nat.le_trans (Nat.le_of_succ_le hfirst) (hbound i hi).1

theorem Model.Parted.load {m : Model} (hm : m.Parted) (hdrawn : ∀ b ∈ m.loaded, b.handle < m.next)
    (d : BlueprintDraft) : (m.load d).Parted := by
  have hloaded : (m.load d).loaded = m.loaded ++ [(d.make m.next).1] := rfl
  have hnext : m.next ≤ (m.load d).next := Nat.le_of_lt (d.lt_make m.next)
  have hhandle : (d.make m.next).1.handle = m.next := rfl
  obtain ⟨hnodup, hbound⟩ := nodeHandles_make d m.next
  have hmem {b : Blueprint} (hb : b ∈ (m.load d).loaded) :
      b ∈ m.loaded ∨ b = (d.make m.next).1 := by
    rw [hloaded] at hb
    exact (List.mem_append.mp hb).imp_right List.mem_singleton.mp
  have hapart {b : Blueprint} (hb : b ∈ m.loaded) {i : Nat} (hi : i ∈ b.nodeHandles) :
      i ∉ (d.make m.next).1.nodeHandles := by
    intro hnew
    exact absurd (hm.drawn b hb i hi) (Nat.not_lt.mpr (hbound i hnew).1)
  refine ⟨?_, ?_, ?_, ?_⟩
  · intro b hb c hc he
    rcases hmem hb with hb | rfl <;> rcases hmem hc with hc | rfl
    · exact hm.coherent b hb c hc he
    · exact absurd (he.trans hhandle) (Nat.ne_of_lt (hdrawn b hb))
    · exact absurd (he.symm.trans hhandle) (Nat.ne_of_lt (hdrawn c hc))
    · rfl
  · intro b hb
    rcases hmem hb with hb | rfl
    · exact hm.nodup b hb
    · exact hnodup
  · intro b hb i hi
    rcases hmem hb with hb | rfl
    · exact Nat.lt_of_lt_of_le (hm.drawn b hb i hi) hnext
    · exact (hbound i hi).2
  · intro b hb c hc i hib hic
    rcases hmem hb with hb | rfl <;> rcases hmem hc with hc | rfl
    · exact hm.apart b hb c hc i hib hic
    · exact absurd hic (hapart hb hib)
    · exact absurd hib (hapart hc hic)
    · rfl

theorem Reachable.parted {m : Model} (h : Reachable m) : m.Parted := by
  induction h with
  | empty => refine ⟨?_, ?_, ?_, ?_⟩ <;> simp [Model.empty, Model.Coherent]
  | load d hd h ih => exact ih.load h.tidy.drawn d
  | apply sink text e s hsink h ih =>
    rcases Engine.model_apply sink text e s hsink with hrun | ⟨hloaded, hnext⟩
    · exact ih.runInTurn hrun
    · exact ih.of_loaded_eq hloaded hnext

theorem takeFirst?_handle {p : Node → Bool} {xs : List Node} {x : Node}
    (hnodup : (xs.map (·.handle)).Nodup) (hfind : xs.find? p = some x) :
    takeFirst? (fun y => y.handle = x.handle) xs = takeFirst? p xs := by
  induction xs with
  | nil => rfl
  | cons y xs ih =>
    rw [List.map_cons, List.nodup_cons] at hnodup
    by_cases hy : p y = true
    · obtain rfl : y = x := by simpa [List.find?_cons, hy] using hfind
      simp [takeFirst?, hy]
    · have hfind' : xs.find? p = some x := by simpa [List.find?_cons, hy] using hfind
      have hne : y.handle ≠ x.handle := fun he =>
        hnodup.1 (he ▸ List.mem_map_of_mem (List.mem_of_find?_eq_some hfind'))
      simp [takeFirst?, hy, hne, ih hnodup.2 hfind']

theorem takeNode?_handle {p : Node → Bool} {gs : List Graph} {x : Node}
    (hnodup : ((gs.flatMap (·.nodes)).map (·.handle)).Nodup)
    (hfind : (gs.flatMap (·.nodes)).find? p = some x) :
    takeNode? (fun y => y.handle = x.handle) gs = takeNode? p gs := by
  induction gs with
  | nil => rfl
  | cons g gs ih =>
    rw [List.flatMap_cons] at hnodup hfind
    rw [List.map_append, List.nodup_append] at hnodup
    rw [List.find?_append] at hfind
    unfold takeNode?
    cases hhere : g.nodes.find? p with
    | some y =>
      obtain rfl : y = x := by simpa [hhere] using hfind
      rw [takeFirst?_handle hnodup.1 hhere]
      have hsome : takeFirst? p g.nodes = some (y, g.nodes.eraseP p) := by
        rw [takeFirst?_eq, hhere, Option.map_some]
      rw [hsome]
    | none =>
      have hlater : (gs.flatMap (·.nodes)).find? p = some x := by simpa [hhere] using hfind
      have hnone : takeFirst? p g.nodes = none := by rw [takeFirst?_eq, hhere, Option.map_none]
      have hnone' : takeFirst? (fun y => decide (y.handle = x.handle)) g.nodes = none := by
        rw [takeFirst?_eq_none_iff]
        intro y hy he
        have hmem := List.mem_map_of_mem (f := (·.handle)) (List.mem_of_find?_eq_some hlater)
        exact hnodup.2.2 y.handle (List.mem_map_of_mem hy) x.handle hmem (by simpa using he)
      rw [hnone, hnone', ih hnodup.2.1 hlater]

theorem findSome?_unique {α β : Type} {f : α → Option β} {as : List α} {a : α} (ha : a ∈ as)
    (h : ∀ c ∈ as, c ≠ a → f c = none) : as.findSome? f = f a := by
  induction as with
  | nil => simp at ha
  | cons c as ih =>
    by_cases hc : c = a
    · subst hc
      rw [List.findSome?_cons]
      cases hfc : f c with
      | some b => rfl
      | none =>
        refine List.findSome?_eq_none_iff.mpr fun d hd => ?_
        by_cases hdc : d = c
        · rw [hdc, hfc]
        · exact h d (List.mem_cons_of_mem c hd) hdc
    · rw [List.findSome?_cons, h c List.mem_cons_self hc]
      exact ih ((List.mem_cons.mp ha).resolve_left (Ne.symm hc))
        fun d hd => h d (List.mem_cons_of_mem c hd)

theorem Model.NodesOnce.deleteNode? {m : Model} (hm : m.NodesOnce) {b : Blueprint}
    (hb : b ∈ m.loaded) {key : String} {x : Node} (hx : b.findNode? key = some x) :
    m.deleteNode? x.handle = (b.removeNode? (·.answersTo key)).map m.update := by
  have hxb : x ∈ b.allNodes := List.mem_of_find?_eq_some hx
  have hother : ∀ c ∈ m.loaded, c ≠ b →
      c.removeNode? (fun y => y.handle = x.handle) = none := by
    intro c hc hne
    rw [← Option.isNone_iff_eq_none, ← Option.isSome_eq_false_iff, Blueprint.isSome_removeNode?,
      Option.isSome_eq_false_iff, Option.isNone_iff_eq_none, List.find?_eq_none]
    intro y hy he
    have hhandle : y.handle = x.handle := by simpa using he
    have hmem : x.handle ∈ c.nodeHandles := hhandle ▸ List.mem_map_of_mem hy
    exact hne (hm.owned c hc b hb x.handle hmem (List.mem_map_of_mem hxb))
  have hown : b.removeNode? (fun y => y.handle = x.handle) =
      b.removeNode? (·.answersTo key) := by
    unfold Blueprint.removeNode?
    rw [takeNode?_handle (hm.nodup b hb) hx]
  rw [Model.deleteNode?, findSome?_unique hb hother, hown]

/-- A deletion finds the node by its name in the blueprint that the operation names, and then its
owner among all loaded blueprints: that is the same one, which is marked next. -/
theorem NodeDelete.apply_by_owner {m m' : Model} (hm : m.NodesOnce) {op : NodeDelete}
    {summary : String} (h : op.apply m = .ok (m', summary)) :
    ∃ b x c, m.resolve? op.header.blueprint = some b ∧ b.findNode? op.nodeId = some x ∧
      b.removeNode? (·.answersTo op.nodeId) = some c ∧
      m.deleteNode? x.handle = some (m.update c) ∧ c.handle = b.handle ∧
      m'.loaded = ((m.update c).markModified c).loaded := by
  obtain ⟨b, hb, c, hc, rfl, -⟩ := NodeDelete.apply_eq_ok_iff.mp h
  have hsome : (b.allNodes.find? (·.answersTo op.nodeId)).isSome := by
    rw [← Blueprint.isSome_removeNode?, hc, Option.isSome_some]
  obtain ⟨x, hx⟩ := Option.isSome_iff_exists.mp hsome
  have hdelete := hm.deleteNode? (Model.mem_of_resolve? hb) hx
  rw [hc, Option.map_some] at hdelete
  have hhandle : c.handle = b.handle := by
    obtain ⟨r, -, rfl⟩ := Option.map_eq_some_iff.mp hc
    rfl
  have hloaded := Model.loaded_update_update (b := c) (c := c.markModified) rfl 0 m
  exact ⟨b, x, c, hb, hx, hc, hdelete, hhandle, hloaded.symm⟩

end BlueprintPatch

import BlueprintPatch.Graph.Blueprint
import Mathlib.Data.List.Nodup
import Mathlib.Data.List.Perm.Subperm
import Mathlib.Order.Bounds.Defs
import Std.Data.String.ToNat

/-! Names. Under a rename one name takes the place of another in the table of the variables; if the
names are distinct, it takes the place of a single one. A new node gets the name with the least
index that is free; the search for it ends, as there are more indices than nodes. -/
namespace BlueprintPatch

theorem perm_replace {α : Type} [BEq α] [LawfulBEq α] {a : α} {as : List α} (b : α)
    (h : a ∈ as) : (as.replace a b).Perm (b :: as.erase a) := by
  induction as with
  | nil => simp at h
  | cons c as ih =>
    by_cases hc : c = a
    · subst hc
      simp
    · have hmem : a ∈ as := by simpa [Ne.symm hc] using h
      rw [List.replace_cons, beq_false_of_ne (Ne.symm hc), List.erase_cons_tail (by simp [hc])]
      exact ((ih hmem).cons c).trans (.swap b c _)

theorem mem_replace_iff {α : Type} [BEq α] [LawfulBEq α] {a x : α} {as : List α} (b : α)
    (h : a ∈ as) (hx : x ≠ a) : x ∈ as.replace a b ↔ x = b ∨ x ∈ as := by
  rw [(perm_replace b h).mem_iff, List.mem_cons, List.mem_erase_of_ne hx]

/-- Replacing takes one occurrence away; of `xs`, which do not count the new element, it leaves as
many to count. -/
theorem count_le_replace_iff {α : Type} [BEq α] [LawfulBEq α] {a b : α} {as xs : List α}
    (h : a ∈ as) (hne : a ≠ b) (hb : b ∉ xs) (x : α) :
    xs.count x ≤ (as.replace a b).count x ↔ (a :: xs).count x ≤ as.count x := by
  have hpos : 0 < as.count a := List.count_pos_iff.mpr h
  rw [(perm_replace b h).count_eq]
  by_cases hxa : x = a
  · rw [hxa, List.count_cons_self, List.count_cons_of_ne hne.symm, List.count_erase_self]
    omega
  · rw [List.count_cons_of_ne (Ne.symm hxa)]
    by_cases hxb : x = b
    · rw [hxb, List.count_eq_zero_of_not_mem hb]
      simp
    · rw [List.count_cons_of_ne (Ne.symm hxb), List.count_erase_of_ne hxa]

theorem nodup_replace {α : Type} [BEq α] [LawfulBEq α] {a b : α} {as : List α} (hnodup : as.Nodup)
    (ha : a ∈ as) (hb : b ∉ as) : (as.replace a b).Nodup := by
  rw [(perm_replace b ha).nodup_iff, List.nodup_cons]
  exact ⟨fun h => hb (List.mem_of_mem_erase h), hnodup.erase a⟩

theorem map_name_renameFirst (old new : String) (vs : List Variable) :
    (Blueprint.renameFirst old new vs).map (·.name) = (vs.map (·.name)).replace old new := by
  induction vs with
  | nil => rfl
  | cons v vs ih =>
    by_cases h : v.name = old
    · simp [Blueprint.renameFirst, h]
    · have h' : (old == v.name) = false := beq_eq_false_iff_ne.mpr fun he => h he.symm
      simp [Blueprint.renameFirst, h, List.replace_cons, h', ih]

theorem hasVariable_iff {name : String} {b : Blueprint} :
    b.hasVariable name = true ↔ name ∈ b.members.map (·.name) := by
  simp [Blueprint.hasVariable]

theorem renameFirst_eq_map {vs : List Variable} (h : (vs.map (·.name)).Nodup) (old new : String) :
    Blueprint.renameFirst old new vs =
      vs.map fun v => if v.name = old then { v with name := new } else v := by
  induction vs with
  | nil => rfl
  | cons v vs ih =>
    rw [List.map_cons, List.nodup_cons] at h
    by_cases hv : v.name = old
    · have hrest : vs.map (fun v => if v.name = old then { v with name := new } else v) = vs := by
        refine (List.map_congr_left fun w hw => if_neg fun he => h.1 ?_).trans (List.map_id vs)
        exact List.mem_map.mpr ⟨w, hw, he.trans hv.symm⟩
      rw [List.map_cons, hrest, if_pos hv]
      exact if_pos hv
    · rw [List.map_cons, if_neg hv, ← ih h.2]
      exact if_neg hv

theorem Blueprint.typeOf?_of_split {b : Blueprint} {before after : List Variable} {v : Variable}
    (hb : b.members = before ++ v :: after) (hafter : ∀ w ∈ after, w.name ≠ v.name) :
    b.typeOf? v.name = some v.varType := by
  have hfind : b.members.reverse.find? (·.name = v.name) = some v := by
    refine List.find?_eq_some_iff_append.mpr ⟨by simp, after.reverse, before.reverse, ?_, ?_⟩
    · simp [hb]
    · simpa using hafter
  rw [typeOf?, hfind, Option.map_some]

namespace Blueprint

theorem nodeName_injective (kind : NodeKind) : Function.Injective (nodeName kind) := by
  intro i j h
  exact Nat.repr_inj.mp ((String.append_right_inj _).mp h)

theorem exists_nodeName_not_mem (kind : NodeKind) (taken : List String) :
    ∃ i ∈ List.range (taken.length + 1), nodeName kind i ∉ taken := by
  by_contra hnone
  have hall : ∀ i ∈ List.range (taken.length + 1), nodeName kind i ∈ taken := by
    intro i hi
    by_contra hfree
    exact hnone ⟨i, hi, hfree⟩
  have hsub : (List.range (taken.length + 1)).map (nodeName kind) ⊆ taken := by
    intro name hname
    obtain ⟨i, hi, rfl⟩ := List.mem_map.mp hname
    exact hall i hi
  have hnodup : ((List.range (taken.length + 1)).map (nodeName kind)).Nodup :=
    List.nodup_range.map (nodeName_injective kind)
  have hlength := (List.subperm_of_subset hnodup hsub).length_le
  rw [List.length_map, List.length_range] at hlength
  omega

def freeIndices (kind : NodeKind) (b : Blueprint) : Set Nat :=
  {i | ∀ g ∈ b.graphs, ∀ x ∈ g.nodes, x.name ≠ nodeName kind i}

section

variable {kind : NodeKind} {b : Blueprint} {i j k probes : Nat}

theorem mem_freeIndices_iff :
    i ∈ freeIndices kind b ↔ nodeName kind i ∉ b.allNodes.map (·.name) := by
  have hnames : nodeName kind i ∈ b.allNodes.map (·.name) ↔
      ∃ g ∈ b.graphs, ∃ x ∈ g.nodes, x.name = nodeName kind i := by
    simp only [allNodes, List.mem_map, List.mem_flatMap]
    exact ⟨fun ⟨x, ⟨g, hg, hx⟩, he⟩ => ⟨g, hg, x, hx, he⟩,
      fun ⟨g, hg, x, hx, he⟩ => ⟨x, ⟨g, hg, hx⟩, he⟩⟩
  rw [hnames]
  exact ⟨fun h ⟨g, hg, x, hx, he⟩ => h g hg x hx he, fun h g hg x hx he => h ⟨g, hg, x, hx, he⟩⟩

/-- The name of a new node is the one with the least free index, which is at most the number of
nodes. -/
theorem exists_least_free (kind : NodeKind) (b : Blueprint) :
    ∃ k ≤ b.allNodes.length, IsLeast (freeIndices kind b) k ∧
      b.freshNodeName kind = nodeName kind k := by
  obtain ⟨i, hi, hfree⟩ := exists_nodeName_not_mem kind (b.allNodes.map (·.name))
  have hsome : ((List.range ((b.allNodes.map (·.name)).length + 1)).find? fun i =>
      nodeName kind i ∉ b.allNodes.map (·.name)).isSome :=
    List.find?_isSome.mpr ⟨i, hi, decide_eq_true hfree⟩
  obtain ⟨k, hk⟩ := Option.isSome_iff_exists.mp hsome
  obtain ⟨hfound, hrange, hbefore⟩ := List.find?_range_eq_some.mp hk
  have hbound : k < b.allNodes.length + 1 := by simpa using List.mem_range.mp hrange
  have hname : b.freshNodeName kind = nodeName kind k := by
    simp only [freshNodeName, hk, Option.getD_some]
  refine ⟨k, Nat.lt_succ_iff.mp hbound, ⟨?_, fun j hj => ?_⟩, hname⟩
  · exact mem_freeIndices_iff.mpr (of_decide_eq_true hfound)
  · by_contra hlt
    have htaken := hbefore j (Nat.not_le.mp hlt)
    rw [decide_eq_true (mem_freeIndices_iff.mp hj)] at htaken
    cases htaken

theorem freshNodeName_not_mem (kind : NodeKind) (b : Blueprint) :
    b.freshNodeName kind ∉ b.allNodes.map (·.name) := by
  obtain ⟨k, -, hleast, hname⟩ := exists_least_free kind b
  rw [hname]
  exact mem_freeIndices_iff.mp hleast.1

/-- The search for a free index that looks at one index after the other and has no bound: begun at
the first number, it ends at the last one after as many probes as the second says. -/
inductive Probing (kind : NodeKind) (b : Blueprint) : Nat → Nat → Nat → Prop
  | free {i : Nat} (h : i ∈ freeIndices kind b) : Probing kind b i 1 i
  | taken {i probes k : Nat} (h : i ∉ freeIndices kind b) (rest : Probing kind b (i + 1) probes k) :
      Probing kind b i (probes + 1) k

/-- A search that ends has passed indices that are taken, and stopped at the first that is free. -/
theorem Probing.passed (h : Probing kind b i probes k) :
    i + probes = k + 1 ∧ k ∈ freeIndices kind b ∧ ∀ j, i ≤ j → j < k → j ∉ freeIndices kind b := by
  induction h with
  | free h => exact ⟨rfl, h, fun j hij hji => by omega⟩
  | @taken i probes k h rest ih =>
    obtain ⟨hcount, hfree, hpassed⟩ := ih
    refine ⟨by omega, hfree, fun j hij hjk => ?_⟩
    rcases Nat.eq_or_lt_of_le hij with rfl | hlt
    · exact h
    · exact hpassed j hlt hjk

theorem probing_of_passed (hfree : i + k ∈ freeIndices kind b)
    (hpassed : ∀ j, i ≤ j → j < i + k → j ∉ freeIndices kind b) :
    Probing kind b i (k + 1) (i + k) := by
  induction k generalizing i with
  | zero => exact .free hfree
  | succ k ih =>
    have hshift : i + (k + 1) = i + 1 + k := by omega
    rw [hshift] at hfree hpassed ⊢
    exact .taken (hpassed i (Nat.le_refl i) (by omega))
      (ih hfree fun j hij => hpassed j (by omega))

end

/-- The search for the name of a new node ends after at most one probe more than the blueprint has
nodes, and in one way only. The name is the class of the kind with the least index that is free. -/
theorem freshNodeName_search (kind : NodeKind) (b : Blueprint) :
    ∃ k probes, Probing kind b 0 probes k ∧ probes ≤ b.allNodes.length + 1 ∧
      (∀ k' probes', Probing kind b 0 probes' k' → k' = k ∧ probes' = probes) ∧
      IsLeast {i | ∀ g ∈ b.graphs, ∀ x ∈ g.nodes, x.name ≠ kind.className ++ "_" ++ toString i} k ∧
      b.freshNodeName kind = kind.className ++ "_" ++ toString k := by
  obtain ⟨k, hbound, hleast, hname⟩ := exists_least_free kind b
  have hpassed : ∀ j, 0 ≤ j → j < 0 + k → j ∉ freeIndices kind b :=
    fun j _ hjk hfree => absurd (hleast.2 hfree) (by omega)
  have hsearch : Probing kind b 0 (k + 1) k := by
    have h := probing_of_passed (i := 0) (by simpa using hleast.1) hpassed
    rwa [Nat.zero_add] at h
  refine ⟨k, k + 1, hsearch, by omega, fun k' probes' h => ?_, hleast, hname⟩
  obtain ⟨hcount, hfree, hbefore⟩ := h.passed
  have hk : k ≤ k' := hleast.2 hfree
  have hk' : ¬ k < k' := fun hlt => hbefore k (Nat.zero_le k) hlt hleast.1
  omega

end Blueprint

end BlueprintPatch

import BlueprintPatch.Proofs.Naming
import BlueprintPatch.Proofs.Step

/-! Reachable models: what loading blueprints and applying patches lead to. In all of them every
object has a handle of its own and no two variables of a blueprint have one name. -/
namespace BlueprintPatch

/-- The models that come about by loading blueprints with distinct names of variables, and by
patches of any text. The engine may have any history, and whoever is told of a patch may do
anything but change the model. -/
inductive Reachable : Model → Prop
  | empty : Reachable Model.empty
  | load {m : Model} (d : BlueprintDraft) (hd : (d.members.map (·.name)).Nodup)
      (h : Reachable m) : Reachable (m.load d)
  | apply {σ : Type} (sink : Sink σ) (text : Json) (e : Engine) (s : σ)
      (hsink : ∀ report told s, (sink report told s).1.model = told.model)
      (h : Reachable e.model) : Reachable (e.apply sink text s).1.model

structure Model.Tidy (m : Model) : Prop where
  handles : (m.loaded.map (·.handle)).Nodup
  drawn : ∀ b ∈ m.loaded, b.handle < m.next
  names : ∀ b ∈ m.loaded, (b.members.map (·.name)).Nodup

theorem Model.Tidy.coherent {m : Model} (h : m.Tidy) : m.Coherent :=
  have hpairwise := List.pairwise_map.mp h.handles
  List.Pairwise.forall_of_forall_of_flip (fun _ _ _ => rfl)
    (hpairwise.imp fun hne he => absurd he hne)
    (hpairwise.imp fun hne he => absurd he.symm hne)

theorem le_drawAll {α β : Type} {make : α → Drawn β} (hmake : ∀ a n, n ≤ (make a n).2)
    (as : List α) (n : Nat) : n ≤ (drawAll make as n).2 := by
  induction as generalizing n with
  | nil => exact Nat.le_refl n
  | cons a as ih => exact Nat.le_trans (hmake a n) (ih _)

theorem map_drawAll {α β γ : Type} {make : α → Drawn β} {f : α → γ} {g : β → γ}
    (hmake : ∀ a n, g (make a n).1 = f a) (as : List α) (n : Nat) :
    (drawAll make as n).1.map g = as.map f := by
  induction as generalizing n with
  | nil => rfl
  | cons a as ih =>
    simp only [drawAll, List.map_cons, hmake, ih]

theorem PinDraft.le_make (d : PinDraft) (n : Nat) : n ≤ (d.make n).2 := Nat.le_succ n

theorem NodeDraft.le_make (d : NodeDraft) (n : Nat) : n ≤ (d.make n).2 :=
  Nat.le_trans (Nat.le_succ n) (le_drawAll PinDraft.le_make d.pins (n + 1))

theorem GraphDraft.le_make (d : GraphDraft) (n : Nat) : n ≤ (d.make n).2 :=
  Nat.le_trans (Nat.le_succ n) (le_drawAll NodeDraft.le_make d.nodes (n + 1))

theorem VariableDraft.le_make (d : VariableDraft) (n : Nat) : n ≤ (d.make n).2 := Nat.le_succ n

theorem BlueprintDraft.lt_make (d : BlueprintDraft) (n : Nat) : n < (d.make n).2 :=
  Nat.lt_of_lt_of_le (Nat.lt_succ_self n)
    (Nat.le_trans (le_drawAll VariableDraft.le_make d.members (n + 1))
      (le_drawAll GraphDraft.le_make d.graphs _))

theorem BlueprintDraft.map_name_make (d : BlueprintDraft) (n : Nat) :
    (d.make n).1.members.map (·.name) = d.members.map (·.name) :=
  map_drawAll (fun (v : VariableDraft) k => (rfl : (v.make k).1.name = v.name)) d.members (n + 1)

theorem Model.Tidy.load {m : Model} (h : m.Tidy) {d : BlueprintDraft}
    (hd : (d.members.map (·.name)).Nodup) : (m.load d).Tidy := by
  have hloaded : (m.load d).loaded = m.loaded ++ [(d.make m.next).1] := rfl
  have hnext : m.next < (m.load d).next := d.lt_make m.next
  have hhandle : (d.make m.next).1.handle = m.next := rfl
  refine ⟨?_, ?_, ?_⟩
  · rw [hloaded, List.map_append, List.map_singleton, hhandle]
    refine List.nodup_append.mpr ⟨h.handles, by simp, fun a ha b hb hab => ?_⟩
    obtain ⟨x, hx, rfl⟩ := List.mem_map.mp ha
    exact Nat.ne_of_lt (h.drawn x hx) (hab.trans (List.mem_singleton.mp hb))
  · intro b hb
    rw [hloaded] at hb
    rcases List.mem_append.mp hb with hb | hb
    · exact Nat.lt_trans (h.drawn b hb) hnext
    · rw [List.mem_singleton.mp hb, hhandle]
      exact hnext
  · intro b hb
    rw [hloaded] at hb
    rcases List.mem_append.mp hb with hb | hb
    · exact h.names b hb
    · rwa [List.mem_singleton.mp hb, d.map_name_make]

theorem nodup_names_of_change {op : Operation} {n k : Nat} {b c : Blueprint}
    (h : op.change n b = some (c, k)) (hb : (b.members.map (·.name)).Nodup) :
    (c.members.map (·.name)).Nodup := by
  rcases Operation.change_cases h with
    ⟨r, -, hnames, rfl, -⟩ | ⟨a, t, -, -, -, rfl, -⟩ | ⟨d, left, -, hleft, rfl, -⟩
  · simp only [hasVariable_iff] at hnames
    have hmembers : (r.rename n b).members.map (·.name) =
        (b.members.map (·.name)).replace r.oldName r.newName := map_name_renameFirst ..
    rw [hmembers]
    exact nodup_replace hb hnames.1 hnames.2
  · exact hb
  · obtain ⟨r, -, rfl⟩ := Option.map_eq_some_iff.mp hleft
    exact hb

theorem Model.Tidy.step {op : Operation} {m m' : Model} {b c : Blueprint} {k : Nat} (h : m.Tidy)
    (hleads : op.Leads m m' b c k) : m'.Tidy := by
  have hb := mem_of_resolve? hleads.resolved
  have hbc := Operation.sameIdentity_of_change hleads.changed
  rw [hleads.result]
  refine ⟨?_, ?_, ?_⟩
  · simpa [loaded_update, Function.comp_def] using h.handles
  · have hlater : m.next ≤ m.next + k := Nat.le_add_right ..
    refine forall_loaded_update ?_ fun x hx => Nat.lt_of_lt_of_le (h.drawn x hx) hlater
    rw [hbc.handle]
    exact Nat.lt_of_lt_of_le (h.drawn b hb) hlater
  · exact forall_loaded_update (nodup_names_of_change hleads.changed (h.names b hb)) h.names

theorem Model.Tidy.runInTurn {ops : List RawOperation} {m m' : Model} (h : m.Tidy)
    (hrun : runInTurn ops m = .ok m') : m'.Tidy :=
  runInTurn_induction (fun hm hleads => hm.step hleads) h hrun

theorem Reachable.tidy {m : Model} (h : Reachable m) : m.Tidy := by
  induction h with
  | empty => exact ⟨by decide, by simp [Model.empty], by simp [Model.empty]⟩
  | load d hd _ ih => exact ih.load hd
  | apply sink text e s hsink _ ih =>
    rcases Engine.model_apply sink text e s hsink with hrun | ⟨hloaded, hnext⟩
    · exact ih.runInTurn hrun
    · refine ⟨?_, ?_, ?_⟩ <;> rw [hloaded]
      · exact ih.handles
      · exact fun b hb => Nat.lt_of_lt_of_le (ih.drawn b hb) hnext
      · exact ih.names

end BlueprintPatch

import BlueprintPatch.Proofs.Reachable

/-! References to variables. A node refers to a variable by its name only. A rename takes the nodes
along that refer to the variable, and it catches those that already have the new name and refer to
nothing: a patch may add nodes for variables that are not there. -/
namespace BlueprintPatch

/-- The node has the name of the variable at that place of the table. -/
def Blueprint.Refers (b : Blueprint) (x : Node) (i : Nat) : Prop :=
  ∃ v, b.members[i]? = some v ∧ x.memberName = some v.name

theorem length_rewireNodes (valueType old new : String) (n : Nat) (xs : List Node) :
    (Blueprint.rewireNodes valueType old new n xs).length = xs.length := by
  induction xs generalizing n with
  | nil => rfl
  | cons x xs ih => simp [Blueprint.rewireNodes, ih]

theorem mem_zip_rewireNodes {valueType old new : String} {n : Nat} {xs : List Node} {x y : Node}
    (h : (x, y) ∈ xs.zip (Blueprint.rewireNodes valueType old new n xs)) :
    ∃ k, y = Blueprint.rewireNode valueType old new k x := by
  induction xs generalizing n with
  | nil => simp at h
  | cons z xs ih =>
    rw [Blueprint.rewireNodes, List.zip_cons_cons, List.mem_cons] at h
    rcases h with h | h
    · obtain ⟨rfl, rfl⟩ := Prod.mk.inj h
      exact ⟨n, rfl⟩
    · exact ih h

theorem mem_zip_rewireGraphs {valueType old new : String} {n : Nat} {gs : List Graph} {x y : Node}
    (h : (x, y) ∈ (gs.flatMap (·.nodes)).zip
      ((Blueprint.rewireGraphs valueType old new n gs).flatMap (·.nodes))) :
    ∃ k, y = Blueprint.rewireNode valueType old new k x := by
  induction gs generalizing n with
  | nil => simp at h
  | cons g gs ih =>
    rw [Blueprint.rewireGraphs, List.flatMap_cons, List.flatMap_cons,
      List.zip_append (length_rewireNodes ..).symm, List.mem_append] at h
    exact h.elim mem_zip_rewireNodes ih

theorem length_allNodes_rename (op : VariableRename) (n : Nat) (b : Blueprint) :
    (op.rename n b).allNodes.length = b.allNodes.length := by
  have hnames : (op.rename n b).allNodes.map (·.name) = b.allNodes.map (·.name) :=
    map_rewireGraphs (fun _ _ _ => rfl) _ _ _ n b.graphs
  rw [← List.length_map, hnames, List.length_map]

theorem members_rename {b : Blueprint} (h : (b.members.map (·.name)).Nodup) (op : VariableRename)
    (n : Nat) : (op.rename n b).members =
      b.members.map fun v => if v.name = op.oldName then { v with name := op.newName } else v :=
  renameFirst_eq_map h op.oldName op.newName

theorem refers_rename_iff {b : Blueprint} (h : (b.members.map (·.name)).Nodup)
    (op : VariableRename) (n : Nat) (y : Node) (i : Nat) :
    (op.rename n b).Refers y i ↔ ∃ v, b.members[i]? = some v ∧
      y.memberName = some (if v.name = op.oldName then op.newName else v.name) := by
  simp only [Blueprint.Refers, members_rename h, List.getElem?_map, Option.map_eq_some_iff]
  constructor
  · rintro ⟨_, ⟨v, hv, rfl⟩, hy⟩
    exact ⟨v, hv, by rw [hy]; split <;> rfl⟩
  · rintro ⟨v, hv, hy⟩
    exact ⟨_, ⟨v, hv, rfl⟩, by rw [hy]; split <;> rfl⟩

section

variable {b : Blueprint} {op : VariableRename} {n : Nat} {x y : Node}

/-- What a rename makes of the member name of a node that stands for a variable. -/
def VariableRename.memberAfter (op : VariableRename) (x : Node) : Option String :=
  if x.memberName = some op.oldName then some op.newName else x.memberName

theorem memberName_rewireNode (hx : x.isVariable) (valueType : String) (k : Nat) :
    (Blueprint.rewireNode valueType op.oldName op.newName k x).memberName = op.memberAfter x := by
  obtain ⟨pins, hpins⟩ := rewireNode_eq valueType op.oldName op.newName k x
  rw [hpins]
  simp [VariableRename.memberAfter, Blueprint.refersTo, hx]

theorem refers_kept (h : (b.members.map (·.name)).Nodup)
    (hnew : op.newName ∉ b.members.map (·.name)) (hy : y.memberName = op.memberAfter x)
    (hne : x.memberName ≠ some op.newName) (i : Nat) :
    (op.rename n b).Refers y i ↔ b.Refers x i := by
  rw [refers_rename_iff h, hy, VariableRename.memberAfter]
  refine exists_congr fun v => and_congr_right fun hv => ?_
  have hv' : v.name ≠ op.newName := fun he =>
    hnew (he ▸ List.mem_map_of_mem (List.mem_of_getElem? hv))
  by_cases hm : x.memberName = some op.oldName <;> by_cases ho : v.name = op.oldName
  · simp [hm, ho]
  · simp [hm, ho, Ne.symm hv', Ne.symm ho]
  · simp [hm, ho, hne]
  · simp [hm, ho]

theorem refers_captured (h : (b.members.map (·.name)).Nodup)
    (hnames : op.oldName ∈ b.members.map (·.name) ∧ op.newName ∉ b.members.map (·.name))
    (hy : y.memberName = op.memberAfter x) (he : x.memberName = some op.newName) (i : Nat) :
    ¬ b.Refers x i ∧
      ((op.rename n b).Refers y i ↔ (b.members.map (·.name))[i]? = some op.oldName) := by
  have hne : op.newName ≠ op.oldName := fun heq => hnames.2 (heq ▸ hnames.1)
  constructor
  · rintro ⟨v, hv, hx⟩
    rw [he] at hx
    exact hnames.2 (Option.some.inj hx ▸ List.mem_map_of_mem (List.mem_of_getElem? hv))
  · rw [refers_rename_iff h, hy, VariableRename.memberAfter, he, List.getElem?_map,
      Option.map_eq_some_iff]
    refine exists_congr fun v => and_congr_right fun hv => ?_
    have hv' : v.name ≠ op.newName := fun heq =>
      hnames.2 (heq ▸ List.mem_map_of_mem (List.mem_of_getElem? hv))
    by_cases ho : v.name = op.oldName
    · simp [hne, ho]
    · simp [hne, ho, Ne.symm hv']

end

/-- After a rename in a reachable model every node that stands for a variable refers to the same
one as before, or to none as before, unless it had the new name already; such a node referred to
none and has been caught by the renamed variable. -/
theorem rename_captures_only {m m' : Model} (hm : Reachable m) {op : VariableRename}
    {summary : String} (h : op.apply m = .ok (m', summary)) :
    ∃ b b', m.resolve? op.header.blueprint = some b ∧
      m'.resolve? op.header.blueprint = some b' ∧
      b'.members.map (·.handle) = b.members.map (·.handle) ∧
      b'.allNodes.length = b.allNodes.length ∧
      ∀ x y, (x, y) ∈ b.allNodes.zip b'.allNodes →
        y.handle = x.handle ∧ y.kind = x.kind ∧
        (x.isVariable → x.memberName ≠ some op.newName → ∀ i, b'.Refers y i ↔ b.Refers x i) ∧
        (x.isVariable → x.memberName = some op.newName → ∀ i, ¬ b.Refers x i ∧
          (b'.Refers y i ↔ (b.members.map (·.name))[i]? = some op.oldName)) := by
  obtain ⟨b, hb, hnames, rfl, -⟩ := VariableRename.apply_eq_ok_iff.mp h
  simp only [hasVariable_iff] at hnames
  have hmem := Model.mem_of_resolve? hb
  have hnodup := hm.tidy.names b hmem
  have hid : Model.SameIdentity b (op.rename m.next b) := ⟨rfl, rfl, rfl⟩
  refine ⟨b, op.rename m.next b, hb, ?_, ?_, length_allNodes_rename .., fun x y hxy => ?_⟩
  · rw [Model.resolve?_draw, Model.resolve?_update hm.tidy.coherent hmem hid, hb]
    exact congrArg some (Model.supplant_of_eq rfl)
  · rw [members_rename hnodup, List.map_map]
    refine List.map_congr_left fun v _ => ?_
    rw [Function.comp_apply]
    split <;> rfl
  · obtain ⟨k, rfl⟩ := mem_zip_rewireGraphs hxy
    obtain ⟨pins, hpins⟩ := rewireNode_eq ((b.renameVariable op.oldName op.newName).valueType
      op.newName) op.oldName op.newName k x
    refine ⟨by rw [hpins], by rw [hpins], fun hx hne i => ?_, fun hx he i => ?_⟩
    · exact refers_kept hnodup hnames.2 (memberName_rewireNode hx _ k) hne i
    · exact refers_captured hnodup hnames (memberName_rewireNode hx _ k) he i

/-- A patch that adds a node for a variable that the lamp does not have. -/
def getBright : Json :=
  .str (braced ("\"type\":\"node_add\",\"blueprint\":\"Lamp\",\"node_type\":\"VariableGet\"," ++
    "\"variable_name\":\"Bright\""))

def addGetBright : RawOperation :=
  ⟨0, [("type", .str "node_add"), ("blueprint", .str "Lamp"), ("node_type", .str "VariableGet"),
    ("variable_name", .str "Bright")]⟩

set_option maxRecDepth 4000 in
theorem ofValue_getBright : Document.ofValue getBright = ⟨[addGetBright], [], none⟩ := by
  rfl

def litToBright : VariableRename :=
  ⟨⟨"variable_rename", "Lamp", none, []⟩, "Lit", "Bright"⟩

theorem reachable_lampEngine : Reachable lampEngine.model :=
  .load lampDraft (by decide) .empty

/-- A node for a variable that is not there comes to refer to one that gets its name. -/
theorem rename_captures_getBright :
    ¬ ∀ (op : VariableRename) (m m' : Model) (summary : String), Reachable m →
      op.apply m = .ok (m', summary) → ∀ b b' x y, m.resolve? op.header.blueprint = some b →
        m'.resolve? op.header.blueprint = some b' → (x, y) ∈ b.allNodes.zip b'.allNodes →
        x.isVariable → ∀ i, b'.Refers y i ↔ b.Refers x i := by
  intro h
  have hreach := Reachable.apply silentSink getBright lampEngine () (fun _ _ _ => rfl)
    reachable_lampEngine
  rw [Engine.apply_of_completed silentSink () rfl rfl (by rw [ofValue_getBright]; simp)
    (by rw [ofValue_getBright]; rfl), Engine.model_finish] at hreach
  have hnode := h litToBright _ _ _ hreach rfl _ _ _ _ rfl rfl
    (List.Mem.tail _ (List.Mem.head _)) rfl
  obtain ⟨v, hv, hname⟩ := (hnode 0).mp ⟨_, rfl, rfl⟩
  obtain rfl := Option.some.inj hv
  have hsame : some "Bright" = some "Lit" := hname
  exact absurd hsame (by decide)

theorem rename_captures_only_lamp :
    Reachable lampEngine.model ∧
    ∃ m summary, litToBright.apply lampEngine.model = .ok (m, summary) ∧
      ∃ b b', m.resolve? "Lamp" = some b' ∧ lampEngine.model.resolve? "Lamp" = some b ∧
        ∀ x y, (x, y) ∈ b.allNodes.zip b'.allNodes → x.isVariable →
          x.memberName ≠ some "Bright" → ∀ i, b'.Refers y i ↔ b.Refers x i := by
  refine ⟨reachable_lampEngine, _, _, rfl, ?_⟩
  obtain ⟨b, b', hb, hb', -, -, hnodes⟩ :=
    rename_captures_only reachable_lampEngine (rfl : litToBright.apply lampEngine.model = .ok _)
  exact ⟨b, b', hb', hb, fun x y hxy hx => (hnodes x y hxy).2.2.1 hx⟩

end BlueprintPatch

import BlueprintPatch.Proofs.Renaming
import BlueprintPatch.Proofs.Distinctness

/-! What an addition changes, exactly. One graph gains one node at its end; the node has a name that
no other node of the blueprint has, ids that were never drawn before and the pins of its kind. A node
that cannot be created leaves everything as it is. -/
namespace BlueprintPatch

/-- The graph that an operation asks for; an absent field, null and the empty text ask for the
default one. -/
def requestedGraph (fields : Fields) : String :=
  match fields.get? "graph" with
  | some (.str s) => if s = "" then defaultGraph else s
  | _ => defaultGraph

theorem NodeAdd.graph_of_check {fields : Fields} {op : NodeAdd}
    (h : NodeAdd.check fields = .ok op) : op.graph = requestedGraph fields := by
  obtain ⟨f₁, position, h₁, -, rfl⟩ := Checked.seq_eq_ok h
  obtain ⟨f₂, function, h₂, -, rfl⟩ := Checked.seq_eq_ok h₁
  obtain ⟨f₃, var, h₃, -, rfl⟩ := Checked.seq_eq_ok h₂
  obtain ⟨f₄, graph, h₄, hgraph, rfl⟩ := Checked.seq_eq_ok h₃
  obtain ⟨f₅, type, h₅, -, rfl⟩ := Checked.seq_eq_ok h₄
  obtain ⟨header, -, rfl⟩ := Checked.map_eq_ok h₅
  unfold Fields.take at hgraph
  unfold requestedGraph
  cases hv : fields.get? "graph" with
  | none => simpa [hv] using hgraph.symm
  | some v =>
    cases v with
    | null => simpa [hv, graphRule, Checked.within] using hgraph.symm
    | str s => simpa [hv, graphRule, Checked.within] using hgraph.symm
    | _ => simp [hv, graphRule, Rule.text, Checked.fail, Checked.within] at hgraph

theorem appendNode_append {name : String} {before after : List Graph} {g : Graph}
    (hbefore : ∀ k ∈ before, k.name ≠ name) (hg : g.name = name) (x : Node) :
    Blueprint.appendNode (·.name = name) x (before ++ g :: after) =
      before ++ { g with nodes := g.nodes ++ [x] } :: after := by
  induction before with
  | nil => exact if_pos (by simpa using hg)
  | cons k before ih =>
    rw [List.forall_mem_cons] at hbefore
    rw [List.cons_append, Blueprint.appendNode, if_neg (by simpa using hbefore.1), ih hbefore.2]
    rfl

/-- The ids of `k` numbers of the supply, from `n` on. -/
def drawnIds (n k : Nat) : List String := (List.range' n k).map generatedId

theorem nodup_drawnIds (n k : Nat) : (drawnIds n k).Nodup :=
  List.Nodup.map (fun _ _ => generatedId_inj) List.nodup_range'

theorem not_mem_drawnIds {i n : Nat} (h : i < n) (k : Nat) : generatedId i ∉ drawnIds n k := by
  intro hmem
  obtain ⟨j, hj, he⟩ := List.mem_map.mp hmem
  have hij := generatedId_inj he
  have hbound := List.mem_range'_1.mp hj
  omega

/-- A node that has the pins of its kind has the same ones after it is rebuilt: each new pin takes
the place of the old one that stands where it stands, also if two pins have one name. -/
theorem Node.draft_reconstruct_of_standard {x : Node} {valueType : String}
    (h : x.draft.Standard valueType) (previous : Option String) (n : Nat) :
    (x.reconstruct valueType previous n).draft = x.draft := by
  have hspecs : x.kind.pinSpecs? (x.memberName.getD "") valueType =
      some (x.pins.map (·.draft.spec)) := by
    have h' : x.kind.pinSpecs? (x.memberName.getD "") valueType = _ := h
    rwa [show x.draft.pins = x.pins.map Pin.draft from rfl, List.map_map] at h'
  have hprecedes : List.Forall₂ (fun s p => ∀ k,
      precedes (formerNames x.memberName previous s.name) (s.pin k) p = true)
      (x.pins.map (·.draft.spec)) x.pins := by
    rw [List.forall₂_map_left_iff]
    refine List.forall₂_same.mpr fun p _ k => precedes_iff.mpr ⟨rfl, mem_formerNames .., rfl⟩
  have hcarried := map_draft_carryOver hprecedes n
  have hsame : PinDraft.respecAll (x.pins.map (·.draft.spec)) (x.pins.map Pin.draft) =
      x.pins.map Pin.draft := by
    have h' := PinDraft.respecAll_spec (x.pins.map Pin.draft)
    rwa [List.map_map] at h'
  rw [reconstruct_of_specs hspecs]
  simp only [draft, hcarried, hsame]

theorem NodeAdd.kind?_of_target {op : NodeAdd} {t : NodeKind × String} (h : op.target? = some t) :
    op.kind? = some t.1 := by
  unfold target? at h
  split at h
  · next kind name hkind _ =>
    obtain ⟨-, heq⟩ := Option.ite_none_left_eq_some.mp h
    rw [hkind, ← Option.some.inj heq]
  · contradiction

theorem NodeAdd.specs_of_target {op : NodeAdd} {t : NodeKind × String} (h : op.target? = some t)
    (valueType : String) : ∃ specs, t.1.pinSpecs? t.2 valueType = some specs := by
  obtain ⟨⟨kind, field⟩, hentry, heq⟩ := Option.map_eq_some_iff.mp (kind?_of_target h)
  obtain ⟨before, after, htable, -⟩ := List.lookup_eq_some_iff.mp hentry
  have hmem : (op.nodeType, kind, field) ∈ supportedNodeTypes := by
    rw [htable]
    exact List.mem_append_right before List.mem_cons_self
  rw [← heq]
  simp only [supportedNodeTypes, List.mem_cons, Prod.mk.injEq, List.not_mem_nil, or_false] at hmem
  rcases hmem with ⟨-, rfl, -⟩ | ⟨-, rfl, -⟩ | ⟨-, rfl, -⟩ <;> exact ⟨_, rfl⟩

theorem NodeAdd.node_eq {op : NodeAdd} {t : NodeKind × String} (h : op.target? = some t) (n : Nat)
    (b : Blueprint) : ∃ specs, t.1.pinSpecs? t.2 (b.valueType t.2) = some specs ∧
      op.node t n b = ⟨n, b.freshNodeName t.1, generatedId n, t.1, some t.2, op.position.x,
        op.position.y, newPins (n + 1) specs⟩ := by
  obtain ⟨specs, hspecs⟩ := specs_of_target h (b.valueType t.2)
  refine ⟨specs, hspecs, ?_⟩
  rw [node, Blueprint.newNode_eq, Option.getD_some, hspecs, Option.getD_some]

/-- The node is one that the blueprint did not have: its name is free, and its ids are those of the
numbers from `n` on, which are distinct and have not been given before. -/
structure Node.IsNew (b : Blueprint) (n : Nat) (x : Node) : Prop where
  name : x.name ∉ b.allNodes.map (·.name)
  ids : x.guid :: x.pins.map (·.id) = drawnIds n (1 + x.pins.length)
  distinct : (x.guid :: x.pins.map (·.id)).Nodup
  unseen : ∀ i < n, generatedId i ∉ x.guid :: x.pins.map (·.id)

theorem NodeAdd.isNew_node {op : NodeAdd} {t : NodeKind × String} (h : op.target? = some t) (n : Nat)
    (b : Blueprint) : (op.node t n b).IsNew b n := by
  have hids : (op.node t n b).guid :: (op.node t n b).pins.map (·.id) =
      drawnIds n (1 + (op.node t n b).pins.length) := by
    obtain ⟨specs, -, hnode⟩ := node_eq h n b
    rw [hnode, ids_newPins, length_newPins, drawnIds, Nat.add_comm 1, List.range'_succ,
      List.map_cons]
  refine ⟨?_, hids, ?_, ?_⟩
  · rw [(label_node op t n b).1]
    exact b.freshNodeName_not_mem t.1
  · rw [hids]
    exact nodup_drawnIds _ _
  · rw [hids]
    exact fun i hi => not_mem_drawnIds hi _

/-- The node has the pins of its kind as they come. To rebuild it would change nothing. -/
structure Node.AsMade (valueType : String) (x : Node) : Prop where
  standard : x.draft.Standard valueType
  bare : ∀ p ∈ x.pins, p.linkedTo = [] ∧ p.defaultValue = ""
  settled : ∀ n, (x.reconstruct valueType none n).draft = x.draft

theorem NodeAdd.asMade_node {op : NodeAdd} {t : NodeKind × String} (h : op.target? = some t)
    (n : Nat) (b : Blueprint) : (op.node t n b).AsMade (b.valueType t.2) := by
  obtain ⟨specs, hspecs, hnode⟩ := node_eq h n b
  have hstandard : (op.node t n b).draft.Standard (b.valueType t.2) := by
    rw [hnode]
    refine hspecs.trans ?_
    rw [Node.draft, List.map_map]
    exact congrArg some (map_spec_newPins (n + 1) specs).symm
  refine ⟨hstandard, ?_, Node.draft_reconstruct_of_standard hstandard none⟩
  rw [hnode]
  intro p hp
  obtain ⟨i, hi, rfl⟩ := List.mem_mapIdx.mp hp
  exact ⟨rfl, rfl⟩

/-- The type that goes with a name: that of the variable of the name, or the wildcard. -/
structure TypedAs (vs : List Variable) (name type : String) : Prop where
  known : (vs.map (·.name)).Nodup → ∀ v ∈ vs, v.name = name → type = v.varType
  unknown : name ∉ vs.map (·.name) → type = wildcardType

theorem Blueprint.typedAs_valueType (b : Blueprint) (name : String) :
    TypedAs b.members name (b.valueType name) := by
  constructor
  · intro hnodup v hv hname
    obtain ⟨before, after, hb⟩ := List.append_of_mem hv
    have hafter : ∀ w ∈ after, w.name ≠ v.name := by
      rw [hb, List.map_append, List.map_cons, List.nodup_append, List.nodup_cons] at hnodup
      exact fun w hw he => hnodup.2.1.1 (he ▸ List.mem_map_of_mem hw)
    rw [← hname, valueType, typeOf?_of_split hb hafter, Option.getD_some]
  · intro hname
    have hfind : b.members.reverse.find? (·.name = name) = none := by
      rw [List.find?_eq_none]
      intro v hv he
      exact hname (List.mem_map.mpr ⟨v, List.mem_reverse.mp hv, by simpa using he⟩)
    rw [valueType, typeOf?, hfind]
    rfl

namespace Session

variable {α β : Type}

namespace Action

theorem run_bind_error {x : Action α} {f : α → Action β} {e : Failure} {s s' : Session}
    (h : x.run s = (.error e, s')) : (x >>= f).run s = (.error e, s') := by
  simp only [run, ExceptT.run, StateT.run] at h
  simp only [run, ExceptT.run, StateT.run, bind, ExceptT.bind, ExceptT.mk, StateT.bind, h]
  rfl

/-- The action leaves the session as it is. -/
def Reads (x : Action α) : Prop := ∀ s, (x.run s).2 = s

/-- The action leaves the session as it is if it fails. -/
def FailsUnchanged (x : Action α) : Prop := ∀ s e s', x.run s = (.error e, s') → s' = s

theorem Reads.bind {x : Action α} {f : α → Action β} (hx : x.Reads) (hf : ∀ a, (f a).Reads) :
    (x >>= f).Reads := by
  intro s
  obtain ⟨r, s', hrun⟩ : ∃ r s', x.run s = (r, s') := ⟨_, _, rfl⟩
  obtain rfl : s' = s := by simpa [hrun] using hx s
  cases r with
  | error e => rw [run_bind_error hrun]
  | ok a =>
    rw [run_bind hrun]
    exact hf a s'

theorem FailsUnchanged.bind {x : Action α} {f : α → Action β} (hx : x.Reads)
    (hf : ∀ a, (f a).FailsUnchanged) : (x >>= f).FailsUnchanged := by
  intro s e s' h
  obtain ⟨r, s₁, hrun⟩ : ∃ r s₁, x.run s = (r, s₁) := ⟨_, _, rfl⟩
  obtain rfl : s₁ = s := by simpa [hrun] using hx s
  cases r with
  | error e' =>
    rw [run_bind_error hrun] at h
    exact (Prod.mk.inj h).2.symm
  | ok a =>
    rw [run_bind hrun] at h
    exact hf a s₁ e s' h

theorem reads_pure (a : α) : (pure a : Action α).Reads := fun _ => rfl

theorem reads_model : model.Reads := fun _ => rfl

theorem reads_require (missing : Missing) (a : Option α) : (require missing a).Reads := by
  cases a <;> exact fun _ => rfl

theorem reads_choose (type : String) (ofName? : String → Option α) (name : String) :
    (choose type ofName? name).Reads := by
  unfold choose
  cases ofName? name <;> exact fun _ => rfl

theorem reads_ofExcept {ε : Type} (describe : ε → Failure) (x : Except ε α) :
    (ofExcept describe x).Reads := by
  cases x <;> exact fun _ => rfl

theorem reads_target (site : Site) : (target site).Reads := by
  cases site with
  | loose name => exact reads_pure _
  | graph r q =>
    refine Reads.bind (reads_model.bind fun m => reads_require _ _) fun b => ?_
    exact (reads_require _ _).bind fun g => reads_pure _

theorem failsUnchanged_createNode (site : Site) (kindName : String) (params : Json)
    (name : Option String) : (createNode site kindName params name).FailsUnchanged := by
  refine .bind (reads_target site) fun t => .bind (reads_choose _ _ _) fun kind =>
    .bind reads_model fun m => .bind (reads_ofExcept _ _) fun made => ?_
  intro s e s' h
  cases name <;> cases h

theorem createNode_fails {site : Site} {params : Json} {s : Session}
    (h : ∀ t kind, (target site).run s = (.ok t, s) →
      ∃ e, s.engine.model.create t kind params = .error e) (kindName : String)
    (name : Option String) :
    ∃ e, (createNode site kindName params name).run s = (.error e, s) := by
  obtain ⟨r, s', hrun⟩ : ∃ r s', (target site).run s = (r, s') := ⟨_, _, rfl⟩
  obtain rfl : s' = s := by simpa [hrun] using reads_target site s
  cases r with
  | error e => exact ⟨e, run_bind_error hrun⟩
  | ok t =>
    rw [createNode, run_bind hrun]
    cases hkind : NodeKind.ofName? kindName with
    | none =>
      have hchoose : (choose "NodeKind" NodeKind.ofName? kindName).run s' =
          (.error (.notChoice kindName "NodeKind"), s') := by
        rw [choose, hkind]
        rfl
      exact ⟨_, run_bind_error hchoose⟩
    | some kind =>
      have hchoose : (choose "NodeKind" NodeKind.ofName? kindName).run s' = (.ok kind, s') := by
        rw [choose, hkind]
        rfl
      have hmodel : model.run s' = (.ok s'.engine.model, s') := rfl
      obtain ⟨e, he⟩ := h t kind hrun
      rw [run_bind hchoose, run_bind hmodel, he]
      exact ⟨.creation e, rfl⟩

end Action

end Session

theorem Model.create_fails_of_coordinate {fields : Fields} {axis : String} {e : CreationError}
    (haxis : axis ∈ ["pos_x", "pos_y"]) (h : Creation.coordinate axis fields = .error e)
    (target : CreationTarget) (kind : NodeKind) (m : Model) :
    ∃ e', m.create target kind (.obj fields) = .error e' := by
  cases target with
  | foreign name => exact ⟨_, rfl⟩
  | loaded b g =>
    rcases List.mem_pair.mp haxis with rfl | rfl
    · exact ⟨e, by simp [create, Creation.parameters, h, bind, Except.bind]⟩
    · cases hx : Creation.coordinate "pos_x" fields with
      | error e' => exact ⟨e', by simp [create, Creation.parameters, hx, bind, Except.bind]⟩
      | ok x => exact ⟨e, by simp [create, Creation.parameters, hx, h, bind, Except.bind]⟩

/-- An addition that succeeds puts one node at the end of the first graph of the name that was asked
for, and marks the blueprint; nothing else of the model is changed. The node is new and has the pins
of its kind as they come, of the type of the variable. A creation by hand that fails leaves the
model as it is; it fails outside of the model and with coordinates that cannot be used. -/
theorem add_exact :
    (∀ (fields : Fields) (op : NodeAdd) (m m' : Model) (summary : String),
      NodeAdd.check fields = .ok op → op.apply m = .ok (m', summary) →
      ∃ (b b' : Blueprint) (before after : List Graph) (g : Graph) (x : Node)
        (member valueType : String),
        m.resolve? op.header.blueprint = some b ∧
        b' = { b with
          graphs := before ++ { g with nodes := g.nodes ++ [x] } :: after
          modified := true
          modificationCount := b.modificationCount + 1 } ∧
        m'.loaded = m.loaded.map (fun c => if c.handle = b.handle then b' else c) ∧
        m'.next = m.next + (1 + x.pins.length) ∧
        b.graphs = before ++ g :: after ∧ g.name = requestedGraph fields ∧
        (∀ k ∈ before, k.name ≠ requestedGraph fields) ∧
        x.IsNew b m.next ∧ op.target? = some (x.kind, member) ∧ x.memberName = some member ∧
        x.posX = op.position.x ∧ x.posY = op.position.y ∧
        x.AsMade valueType ∧ TypedAs b.members member valueType) ∧
    (∀ (site : Session.Action.Site) (kindName : String) (params : Json) (name : Option String),
      (Session.Action.createNode site kindName params name).FailsUnchanged) ∧
    (∀ (graph kindName : String) (params : Json) (name : Option String) (s : Session),
      ∃ e, (Session.Action.createNode (.loose graph) kindName params name).run s =
        (.error e, s)) ∧
    ∀ (fields : Fields) (axis : String) (e : CreationError), axis ∈ ["pos_x", "pos_y"] →
      Creation.coordinate axis fields = .error e →
      ∀ (site : Session.Action.Site) (kindName : String) (name : Option String) (s : Session),
        ∃ e', (Session.Action.createNode site kindName (.obj fields) name).run s =
          (.error e', s) := by
  refine ⟨?_, Session.Action.failsUnchanged_createNode, ?_, ?_⟩
  · intro fields op m m' summary hcheck h
    obtain ⟨b, hb, hgraph, t, ht, rfl, -⟩ := NodeAdd.apply_eq_ok_iff.mp h
    obtain ⟨before, g, after, hgraphs, hg, hbefore⟩ :=
      exists_first (by rwa [List.isSome_find?])
    simp only [decide_eq_true_eq] at hg hbefore
    have hadded : (b.addNode (·.name = op.graph) (op.node t m.next b)).graphs =
        before ++ { g with nodes := g.nodes ++ [op.node t m.next b] } :: after := by
      rw [Blueprint.addNode, hgraphs, appendNode_append hbefore hg]
    obtain ⟨specs, -, hnode⟩ := NodeAdd.node_eq ht m.next b
    rw [← NodeAdd.graph_of_check hcheck]
    refine ⟨b, op.add (op.node t m.next b) b, before, after, g, op.node t m.next b, t.2,
      b.valueType t.2, hb, ?_, rfl, rfl, hgraphs, hg, hbefore, NodeAdd.isNew_node ht m.next b,
      ?_, ?_, ?_, ?_, NodeAdd.asMade_node ht m.next b, b.typedAs_valueType t.2⟩
    · rw [← hadded]
      rfl
    · rw [hnode, ht]
    · rw [hnode]
    · rw [hnode]
    · rw [hnode]
  · intro graph kindName params name s
    refine Session.Action.createNode_fails (fun t kind ht => ?_) kindName name
    obtain rfl := Except.ok.inj (Prod.mk.inj ht).1
    exact ⟨.foreignGraph graph, rfl⟩
  · intro fields axis e haxis h site kindName name s
    exact Session.Action.createNode_fails (fun t kind _ =>
      Model.create_fails_of_coordinate haxis h t kind s.engine.model) kindName name

/-- A valve with a variable that is called like a control pin and has the type of one, and with two
graphs of the default name. -/
def valveDraft : BlueprintDraft :=
  ⟨"Valve", "/Game/Valve", none, [⟨"execute", "exec", "", false⟩],
    [⟨"Flow", .function, []⟩,
     ⟨"EventGraph", .eventGraph,
      [⟨"K2Node_VariableSet_0", some "G", .generic, none, .zero, .zero, []⟩]⟩,
     ⟨"EventGraph", .macroGraph, []⟩], false, 0⟩

def addSetExecute : Fields :=
  [("type", .str "node_add"), ("blueprint", .str "Valve"), ("node_type", .str "VariableSet"),
    ("graph", .null), ("variable_name", .str "execute")]

/-- The valve's new node is the second of its kind, and its two pins of one name stay apart. -/
theorem add_exact_valve :
    ∃ op m summary, NodeAdd.check addSetExecute = .ok op ∧
      op.apply (Model.empty.load valveDraft) = .ok (m, summary) ∧
      m.loaded.map (·.graphs.map (·.nodes.map (·.name))) =
        [[[], ["K2Node_VariableSet_0", "K2Node_VariableSet_1"], []]] ∧
      (∃ (b : Blueprint) (x : Node), (Model.empty.load valveDraft).resolve? "Valve" = some b ∧
        x ∈ m.loaded.flatMap (·.allNodes) ∧ x.IsNew b (Model.empty.load valveDraft).next ∧
        x.AsMade "exec") ∧
      Creation.coordinate "pos_y" [("pos_y", .null)] = .error (.coercion (.notNumber "NoneType")) ∧
      ∀ s, ∃ e, (Session.Action.createNode (.graph (.index 0) (.index 0)) "VariableGet"
        (.obj [("pos_y", .null)]) none).run s = (.error e, s) := by
  refine ⟨_, _, _, rfl, rfl, by decide, ?_, rfl,
    add_exact.2.2.2 [("pos_y", .null)] "pos_y" _ (by decide) rfl _ _ _⟩
  obtain ⟨b, _, before, after, g, x, member, valueType, hb, rfl, hloaded, -, -, -, -, hnew,
    htarget, -, -, -, hmade, htyped⟩ :=
    add_exact.1 addSetExecute _ (Model.empty.load valveDraft) _ _ rfl rfl
  obtain ⟨-, rfl⟩ := Prod.mk.inj (Option.some.inj htarget)
  refine ⟨b, x, hb, ?_, hnew, ?_⟩
  · rw [hloaded]
    refine List.mem_flatMap.mpr ⟨_, List.mem_map_of_mem (Model.mem_of_resolve? hb), ?_⟩
    simp [Blueprint.allNodes]
  · obtain rfl := Option.some.inj hb
    rwa [htyped.known (by decide) _ List.mem_cons_self rfl] at hmade

end BlueprintPatch

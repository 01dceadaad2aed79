import BlueprintPatch.Proofs.Agreement
import BlueprintPatch.Proofs.Composition
import BlueprintPatch.Proofs.References
import BlueprintPatch.Session.Editing

/-! What a rename changes, exactly. In the table of the variables it is one name; in the graphs the
nodes that get or set the variable take the new name and the pins that it asks for. All else stays,
also what has the old name without standing for the variable. -/
namespace BlueprintPatch

theorem renameFirst_append {old : String} {before after : List Variable} {v : Variable}
    (hbefore : ∀ w ∈ before, w.name ≠ old) (hv : v.name = old) (new : String) :
    Blueprint.renameFirst old new (before ++ v :: after) =
      before ++ { v with name := new } :: after := by
  induction before with
  | nil => exact if_pos hv
  | cons w before ih =>
    rw [List.forall_mem_cons] at hbefore
    rw [List.cons_append, Blueprint.renameFirst, if_neg hbefore.1, ih hbefore.2]
    rfl

theorem map_spec_carryOver (names : String → List String) (news olds : List Pin) :
    (Node.carryOver names news olds).map (·.draft.spec) = news.map (·.draft.spec) := by
  induction news generalizing olds with
  | nil => rfl
  | cons new news ih =>
    unfold Node.carryOver
    cases takeFirst? (Node.precedes (names new.name) new) olds with
    | some r => exact congrArg (new.draft.spec :: ·) (ih r.2)
    | none => exact congrArg (new.draft.spec :: ·) (ih olds)

theorem map_spec_newPins (n : Nat) (specs : List PinSpec) :
    (newPins n specs).map (·.draft.spec) = specs := by
  induction specs generalizing n with
  | nil => rfl
  | cons s specs ih =>
    rw [newPins_cons, List.map_cons, ih]
    rfl

theorem Node.standard_reconstruct {x : Node} (h : x.kind ≠ .generic) (valueType : String)
    (previous : Option String) (n : Nat) :
    (x.reconstruct valueType previous n).draft.Standard valueType := by
  obtain ⟨specs, hspecs⟩ := NodeKind.exists_pinSpecs h (x.memberName.getD "") valueType
  have hpins : (x.reconstruct valueType previous n).draft.pins.map PinDraft.spec = specs := by
    rw [reconstruct_of_specs hspecs, draft, List.map_map]
    exact (map_spec_carryOver ..).trans (map_spec_newPins n specs)
  rw [NodeDraft.Standard, hpins, reconstruct_of_specs hspecs]
  exact hspecs

/-- What a rename makes of a node. If it gets or sets the variable, it has the new name and the pins
of its kind, and nothing else of it is changed; any other node is left as it is. -/
def Node.RenamedTo (old new valueType : String) (x y : Node) : Prop :=
  if x.isVariable ∧ x.memberName = some old then
    (∃ pins, y = { x with memberName := some new, pins := pins }) ∧ y.draft.Standard valueType
  else y = x

/-- What a rename makes of a graph: its nodes, in their order, are renamed. -/
def Graph.RenamedTo (old new valueType : String) (g g' : Graph) : Prop :=
  ∃ nodes, g' = { g with nodes := nodes } ∧
    List.Forall₂ (Node.RenamedTo old new valueType) g.nodes nodes

section

variable {valueType old new : String}

theorem refersTo_iff_member {x : Node} :
    Blueprint.refersTo old x = true ↔ x.isVariable ∧ x.memberName = some old := by
  simp [Blueprint.refersTo]

theorem renamedTo_rewireNode (n : Nat) (x : Node) :
    x.RenamedTo old new valueType (Blueprint.rewireNode valueType old new n x) := by
  unfold Node.RenamedTo
  by_cases hrefers : Blueprint.refersTo old x = true
  · rw [if_pos (refersTo_iff_member.mp hrefers)]
    obtain ⟨pins, hpins⟩ := rewireNode_eq valueType old new n x
    rw [if_pos hrefers] at hpins
    have hkind : x.kind ≠ .generic := by
      intro he
      have hvariable := (refersTo_iff_member.mp hrefers).1
      rw [Node.isVariable, he] at hvariable
      cases hvariable
    refine ⟨⟨pins, hpins⟩, ?_⟩
    rw [Blueprint.rewireNode, if_pos hrefers]
    exact Node.standard_reconstruct (x := { x with memberName := some new }) hkind valueType
      (some old) n
  · rw [if_neg fun h => hrefers (refersTo_iff_member.mpr h), Blueprint.rewireNode, if_neg hrefers]

theorem renamedTo_rewireNodes (n : Nat) (xs : List Node) :
    List.Forall₂ (Node.RenamedTo old new valueType) xs
      (Blueprint.rewireNodes valueType old new n xs) := by
  induction xs generalizing n with
  | nil => exact .nil
  | cons x xs ih => exact .cons (renamedTo_rewireNode n x) (ih _)

theorem renamedTo_rewireGraphs (n : Nat) (gs : List Graph) :
    List.Forall₂ (Graph.RenamedTo old new valueType) gs
      (Blueprint.rewireGraphs valueType old new n gs) := by
  induction gs generalizing n with
  | nil => exact .nil
  | cons g gs ih => exact .cons ⟨_, rfl, renamedTo_rewireNodes n g.nodes⟩ (ih _)

theorem Graph.RenamedTo.nodes {gs gs' : List Graph}
    (h : List.Forall₂ (Graph.RenamedTo old new valueType) gs gs') :
    List.Forall₂ (Node.RenamedTo old new valueType) (gs.flatMap (·.nodes))
      (gs'.flatMap (·.nodes)) := by
  refine List.rel_flatMap h fun g g' hg => ?_
  obtain ⟨nodes, rfl, hnodes⟩ := hg
  exact hnodes

theorem Node.RenamedTo.not_refersTo {x y : Node} (h : x.RenamedTo old new valueType y)
    (hne : new ≠ old) : ¬ Blueprint.refersTo old y = true := by
  rw [refersTo_iff_member]
  unfold Node.RenamedTo at h
  split at h
  · obtain ⟨⟨pins, rfl⟩, -⟩ := h
    simp [hne]
  · next hx =>
    subst h
    exact hx

theorem forall_not_refersTo {xs ys : List Node} (hne : new ≠ old)
    (h : List.Forall₂ (Node.RenamedTo old new valueType) xs ys) :
    ∀ y ∈ ys, ¬ Blueprint.refersTo old y = true := by
  induction h with
  | nil => simp
  | cons hxy _ ih => exact List.forall_mem_cons.mpr ⟨hxy.not_refersTo hne, ih⟩

theorem Node.RenamedTo.loses_iff {x y : Node} (h : x.RenamedTo old new valueType y)
    (hne : new ≠ old) :
    Blueprint.refersTo old x = true ↔
      x.memberName = some old ∧ y.memberName ≠ some old := by
  rw [refersTo_iff_member]
  unfold Node.RenamedTo at h
  split at h
  · next hx =>
    obtain ⟨⟨pins, rfl⟩, -⟩ := h
    exact ⟨fun _ => ⟨hx.2, by simpa using hne⟩, fun _ => hx⟩
  · next hx =>
    subst h
    exact ⟨fun hx' => absurd hx' hx, fun hlost => absurd hlost.1 hlost.2⟩

theorem countP_refersTo {xs ys : List Node} (hne : new ≠ old)
    (h : List.Forall₂ (Node.RenamedTo old new valueType) xs ys) :
    xs.countP (Blueprint.refersTo old) =
      (xs.zip ys).countP fun p => p.1.memberName = some old ∧ p.2.memberName ≠ some old := by
  induction h with
  | nil => rfl
  | cons hxy _ ih =>
    rw [List.zip_cons_cons, List.countP_cons, List.countP_cons, ih]
    simp only [decide_eq_true_eq, hxy.loses_iff hne]

end

theorem Session.rewire_answers {s : Session} {r : Reference} {b : Blueprint}
    (hb : s.engine.model.blueprintAt? r = some b) (old new : String) :
    ((Action.rewire r old new).run s).1 = .ok (.count (b.references old)) := by
  have hat : (Action.blueprintAt r).run s = (.ok b, s) := by
    have hmodel : Action.model.run s = (.ok s.engine.model, s) := rfl
    rw [Action.blueprintAt, Action.run_bind hmodel, hb]
    rfl
  rw [Action.rewire, Action.run_bind hat]
  rfl

/-- A rename that succeeds changes the name of the first variable that has the old one, and in every
graph the nodes that get or set it; no such node has the old name afterwards. The rewiring tells the
number of the nodes that had the old name and lost it. -/
theorem rename_exact {m m' : Model} {op : VariableRename} {summary : String}
    (h : op.apply m = .ok (m', summary)) :
    ∃ (b b' : Blueprint) (before after : List Variable) (v : Variable) (graphs : List Graph),
      m.resolve? op.header.blueprint = some b ∧
      b' = { b with
        members := before ++ { v with name := op.newName } :: after
        graphs := graphs
        modified := true
        modificationCount := b.modificationCount + 1 } ∧
      m'.loaded = m.loaded.map (fun c => if c.handle = b.handle then b' else c) ∧
      b.members = before ++ v :: after ∧ v.name = op.oldName ∧
      (∀ w ∈ before, w.name ≠ op.oldName) ∧
      List.Forall₂ (Graph.RenamedTo op.oldName op.newName v.varType) b.graphs graphs ∧
      (∀ y ∈ b'.allNodes, y.isVariable → y.memberName ≠ some op.oldName) ∧
      ∀ (s : Session) (r : Reference),
        s.engine.model.blueprintAt? r = some (b.renameVariable op.oldName op.newName) →
        ((Session.Action.rewire r op.oldName op.newName).run s).1 =
          .ok (.count ((b.allNodes.zip b'.allNodes).countP fun p =>
            p.1.memberName = some op.oldName ∧ p.2.memberName ≠ some op.oldName)) := by
  obtain ⟨b, hb, ⟨hold, hnew⟩, rfl, -⟩ := VariableRename.apply_eq_ok_iff.mp h
  obtain ⟨before, v, after, hmembers, hv, hbefore⟩ := exists_first (by rwa [List.isSome_find?])
  simp only [decide_eq_true_eq] at hv hbefore
  have hrenamed : (b.renameVariable op.oldName op.newName).members =
      before ++ { v with name := op.newName } :: after := by
    rw [Blueprint.renameVariable, hmembers, renameFirst_append hbefore hv]
  simp only [hasVariable_iff] at hold hnew
  have hne : op.newName ≠ op.oldName := fun he => hnew (he ▸ hold)
  -- The new name is the renamed variable's alone, so its nodes get the type of that one.
  have htype : (b.renameVariable op.oldName op.newName).valueType op.newName = v.varType := by
    have hafter : ∀ w ∈ after, w.name ≠ op.newName := by
      intro w hw he
      have hmem : w ∈ b.members := by simp [hmembers, hw]
      exact hnew (he ▸ List.mem_map_of_mem hmem)
    rw [Blueprint.valueType, Blueprint.typeOf?_of_split (v := { v with name := op.newName })
      hrenamed hafter, Option.getD_some]
  have hgraphs : List.Forall₂ (Graph.RenamedTo op.oldName op.newName v.varType) b.graphs
      (op.rename m.next b).graphs := by
    rw [← htype]
    exact renamedTo_rewireGraphs m.next b.graphs
  have hnodes := Graph.RenamedTo.nodes hgraphs
  refine ⟨b, op.rename m.next b, before, after, v, (op.rename m.next b).graphs, hb, ?_, rfl,
    hmembers, hv, hbefore, hgraphs, ?_, ?_⟩
  · rw [← hrenamed]
    rfl
  · intro y hy hvariable he
    exact forall_not_refersTo hne hnodes y hy (refersTo_iff_member.mpr ⟨hvariable, he⟩)
  · intro s r hr
    rw [Session.rewire_answers hr]
    exact congrArg (fun k => Except.ok (Session.Answer.count k)) (countP_refersTo hne hnodes)

/-- A lamp with nodes in two graphs that have the name of a variable; one of them calls a function of
that name. -/
def beaconDraft : BlueprintDraft :=
  ⟨"Lamp", "/Game/Lamp", none, [⟨"Dim", "float", "", false⟩, ⟨"Lit", "bool", "true", false⟩],
    [⟨"EventGraph", .eventGraph,
      [⟨"N", some "G", .variableGet, some "Lit", .zero, .zero,
        [⟨some "P", "Lit", .output, "bool", "", []⟩]⟩,
       ⟨"M", some "H", .functionCall, some "Lit", .zero, .zero, []⟩]⟩,
     ⟨"Flash", .function, [⟨"L", some "I", .variableSet, some "Lit", .zero, .zero, []⟩]⟩],
    false, 0⟩

/-- The beacon's rename reaches both graphs and leaves the call of the function alone. -/
theorem rename_exact_beacon :
    ∃ m summary, litToBright.apply (Model.empty.load beaconDraft) = .ok (m, summary) ∧
      ∃ b b' : Blueprint, (Model.empty.load beaconDraft).resolve? "Lamp" = some b ∧
        m.loaded = [b'] ∧ b.allNodes.countP (·.memberName = some "Lit") = 3 ∧
        b'.allNodes.map (·.memberName) = [some "Bright", some "Lit", some "Bright"] ∧
        ∀ (s : Session) (r : Reference),
          s.engine.model.blueprintAt? r = some (b.renameVariable "Lit" "Bright") →
          ((Session.Action.rewire r "Lit" "Bright").run s).1 = .ok (.count 2) := by
  refine ⟨_, _, rfl, ?_⟩
  obtain ⟨b, b', _, _, _, _, hb, -, hloaded, -, -, -, -, -, hcount⟩ :=
    rename_exact (rfl : litToBright.apply (Model.empty.load beaconDraft) = .ok _)
  obtain rfl := Option.some.inj hb
  obtain ⟨rfl, -⟩ := List.cons.inj hloaded
  exact ⟨_, _, rfl, rfl, by decide, by decide, hcount⟩

end BlueprintPatch

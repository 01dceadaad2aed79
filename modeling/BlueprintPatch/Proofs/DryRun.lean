import BlueprintPatch.Proofs.Ledger

/-! The dry run. It checks every operation in the model before the patch, the patch itself checks
each one in the model that the ones before it left. Renames interfere by their names and deletions
by their nodes; this module says exactly when a patch that passes the dry run is applied. -/
namespace BlueprintPatch

/-- The operations that can be read and name the blueprint with that handle. -/
def Model.operationsOn (h : Handle) (ops : List RawOperation) (m : Model) : List Operation :=
  (ops.filterMap (·.typed?)).filter fun op =>
    (m.resolve? op.header.blueprint).any (·.handle = h)

theorem Model.operationsOn_cons {op : RawOperation} {typed : Operation} {m : Model} {b : Blueprint}
    (htyped : op.typed? = some typed) (hb : m.resolve? typed.header.blueprint = some b)
    (h : Handle) (ops : List RawOperation) :
    m.operationsOn h (op :: ops) =
      if b.handle = h then typed :: m.operationsOn h ops else m.operationsOn h ops := by
  by_cases he : b.handle = h <;> simp [operationsOn, htyped, hb, he]

theorem Model.operationsOn_update {m : Model} (hm : m.Coherent) {b c : Blueprint}
    (hb : b ∈ m.loaded) (hbc : SameIdentity b c) (k : Nat) (h : Handle)
    (ops : List RawOperation) :
    ((m.update c).draw k).operationsOn h ops = m.operationsOn h ops := by
  simp only [operationsOn, resolve?_draw, resolve?_update hm hb hbc, Option.any_map,
    handle_supplant]

/-- An operation that can be read, whose blueprint is loaded and that mentions no id with a number
from `n` on. -/
def RawOperation.Addressed (n : Nat) (m : Model) (op : RawOperation) : Prop :=
  ∃ typed b, op.typed? = some typed ∧ m.resolve? typed.header.blueprint = some b ∧
    typed.MentionsOnly n

theorem RawOperation.addressed_update {op : RawOperation} {n : Nat} {m : Model} (hm : m.Coherent)
    {b c : Blueprint} (hb : b ∈ m.loaded) (hbc : Model.SameIdentity b c) (k : Nat)
    (h : op.Addressed n m) : op.Addressed n ((m.update c).draw k) := by
  obtain ⟨typed, x, htyped, hx, hmentions⟩ := h
  refine ⟨typed, Model.supplant c x, htyped, ?_, hmentions⟩
  rw [Model.resolve?_draw, Model.resolve?_update hm hb hbc, hx]
  rfl

/-- The operations succeed in turn exactly if each loaded blueprint's ledger admits those of them
that name it. -/
theorem runInTurn_ok_iff {n : Nat} {m : Model} (hm : m.Coherent) (hn : n ≤ m.next)
    {ops : List RawOperation} (hops : ∀ op ∈ ops, op.Addressed n m) :
    (∃ m', runInTurn ops m = .ok m') ↔
      ∀ b ∈ m.loaded, ((b.ledger n).run (m.operationsOn b.handle ops)).isSome := by
  induction ops generalizing m with
  | nil => simp [Model.operationsOn, Ledger.run]
  | cons op ops ih =>
    obtain ⟨typed, b, htyped, hb, hmentions⟩ := hops op (by simp)
    have hmem := Model.mem_of_resolve? hb
    have hledger := ledger_change hn b hmentions
    have hcons := Model.operationsOn_cons htyped hb
    cases hchange : typed.change m.next b with
    | none =>
      rw [hchange] at hledger
      constructor
      · rintro ⟨m', h⟩
        obtain ⟨next, hop, -⟩ := runInTurn_cons_eq_ok_iff.mp h
        obtain ⟨c, k, h', -⟩ := (RawOperation.step_iff_change htyped hb).mp hop
        exact absurd (hchange.symm.trans h') (by simp)
      · intro h
        have hrun := h b hmem
        rw [hcons, if_pos rfl, Ledger.run, List.foldlM_cons, ← hledger] at hrun
        simp at hrun
    | some r =>
      obtain ⟨c, k⟩ := r
      have hbc := Operation.sameIdentity_of_change hchange
      have hstep : op.step m = .ok ((m.update c).draw k) :=
        (RawOperation.step_iff_change htyped hb).mpr ⟨c, k, hchange, rfl⟩
      have hm' := Model.coherent_draw k (Model.coherent_update c hm)
      have hrest := ih hm' (by simp; omega) fun op' hop' =>
        RawOperation.addressed_update hm hmem hbc k (hops op' (by simp [hop']))
      have hrun (m' : Model) : runInTurn (op :: ops) m = .ok m' ↔
          runInTurn ops ((m.update c).draw k) = .ok m' := by
        simp [runInTurn_cons_eq_ok_iff, hstep]
      rw [hchange] at hledger
      rw [exists_congr hrun, hrest]
      simp only [Model.operationsOn_update hm hmem hbc, Model.loaded_draw, Model.loaded_update,
        List.forall_mem_map, Model.handle_supplant]
      refine forall₂_congr fun x hx => ?_
      rw [hcons]
      by_cases he : b.handle = x.handle
      · obtain rfl := hm b hmem x hx he
        rw [if_pos rfl, Model.supplant_of_eq hbc.handle.symm, Ledger.run, Ledger.run,
          List.foldlM_cons, ← hledger]
        rfl
      · rw [if_neg he, Model.supplant_of_ne fun h => he (hbc.handle ▸ h.symm)]

def renames (ops : List Operation) : List VariableRename :=
  ops.filterMap fun | .variableRename op => some op | _ => none

theorem mem_renames {ops : List Operation} {op : VariableRename} :
    op ∈ renames ops ↔ .variableRename op ∈ ops := by
  simp only [renames, List.mem_filterMap]
  constructor
  · rintro ⟨op', hop', h⟩
    cases op' with
    | variableRename op' => exact Option.some.inj h ▸ hop'
    | _ => simp at h
  · exact fun h => ⟨.variableRename op, h, rfl⟩

def oldNames (ops : List Operation) : List String := (renames ops).map (·.oldName)

def newNames (ops : List Operation) : List String := (renames ops).map (·.newName)

/-- If no name is both taken away and brought in, the names do not care for the order of the
renames: what counts is how often each name is there. -/
theorem isSome_runNames_iff {ops : List Operation} (names : List String)
    (hdisjoint : ∀ x ∈ oldNames ops, x ∉ newNames ops) :
    (runNames ops names).isSome ↔
      (newNames ops).Nodup ∧ (∀ x ∈ newNames ops, x ∉ names) ∧
        ∀ x, (oldNames ops).count x ≤ names.count x := by
  induction ops generalizing names with
  | nil => simp [runNames, oldNames, newNames, renames]
  | cons op ops ih =>
    cases op with
    | variableRename op =>
      have hold : oldNames (.variableRename op :: ops) = op.oldName :: oldNames ops := rfl
      have hnew : newNames (.variableRename op :: ops) = op.newName :: newNames ops := rfl
      rw [hold, hnew] at hdisjoint ⊢
      have hne : op.oldName ≠ op.newName := fun h => hdisjoint op.oldName (by simp) (by simp [h])
      have hrest : ∀ x ∈ oldNames ops, x ∉ newNames ops := fun x hx hx' =>
        hdisjoint x (by simp [hx]) (by simp [hx'])
      have hkept : op.oldName ∉ newNames ops := fun h =>
        hdisjoint op.oldName (by simp) (by simp [h])
      have hlate : op.newName ∉ oldNames ops := fun h =>
        hdisjoint op.newName (by simp [h]) (by simp)
      by_cases h : op.oldName ∈ names ∧ op.newName ∉ names
      · have hrun : runNames (.variableRename op :: ops) names =
            runNames ops (names.replace op.oldName op.newName) := by
          simp [runNames, stepNames, h]
        have hmem : ∀ x ∈ newNames ops,
            (x ∈ names.replace op.oldName op.newName ↔ x = op.newName ∨ x ∈ names) :=
          fun x hx => mem_replace_iff op.newName h.1 fun he => hkept (he ▸ hx)
        rw [hrun, ih _ hrest, forall_congr' (count_le_replace_iff h.1 hne hlate), List.nodup_cons]
        constructor
        · rintro ⟨hnodup, hfresh, hle⟩
          refine ⟨⟨fun hx => hfresh _ hx ((hmem _ hx).mpr (.inl rfl)), hnodup⟩, ?_, hle⟩
          intro x hx
          rcases List.mem_cons.mp hx with rfl | hx
          · exact h.2
          · exact fun hx' => hfresh x hx ((hmem x hx).mpr (.inr hx'))
        · rintro ⟨⟨hlast, hnodup⟩, hfresh, hle⟩
          refine ⟨hnodup, fun x hx hx' => ?_, hle⟩
          rcases (hmem x hx).mp hx' with rfl | hx'
          · exact hlast hx
          · exact hfresh x (by simp [hx]) hx'
      · have hrun : runNames (.variableRename op :: ops) names = none := by
          simp only [runNames, List.foldlM_cons, stepNames, if_neg h]
          rfl
        rw [hrun]
        constructor
        · intro h'
          simp at h'
        · rintro ⟨-, hfresh, hcount⟩
          have hpos := hcount op.oldName
          rw [List.count_cons_self] at hpos
          exact absurd ⟨List.count_pos_iff.mp (by omega), hfresh op.newName (by simp)⟩ h
    | nodeAdd op => exact ih names hdisjoint
    | nodeDelete op => exact ih names hdisjoint
    | unsupported kind header => exact ih names hdisjoint

/-- The ids that are still to be generated are not in use, neither as guids nor as names. -/
def Model.Unissued (m : Model) : Prop :=
  ∀ b ∈ m.loaded, ∀ x ∈ b.allNodes,
    ¬ IsGeneratedFrom m.next x.name ∧ ¬ IsGeneratedFrom m.next x.guid

/-- The labels of the nodes, with the guids of all of them. -/
def Blueprint.roster (b : Blueprint) : Roster :=
  b.graphs.map fun g => (g.name, g.nodes.map fun x => ⟨x.name, some x.guid⟩)

theorem rosterOf_of_unissued {m : Model} (hm : m.Unissued) {b : Blueprint} (hb : b ∈ m.loaded) :
    rosterOf m.next b.graphs = b.roster := by
  refine List.map_congr_left fun g hg => Prod.ext rfl (List.map_congr_left fun x hx => ?_)
  have hguid := (hm b hb x (List.mem_flatMap.mpr ⟨g, hg, hx⟩)).2
  simp [Node.label, hguid]

/-- What the operations on a blueprint have to keep to when each of them is valid for it: no name
is brought in twice, no name is taken away more often than it is there, and the nodes that are to
be deleted are found in turn. -/
structure Blueprint.Admits (b : Blueprint) (ops : List Operation) : Prop where
  distinct : (newNames ops).Nodup
  enough : ∀ x, (oldNames ops).count x ≤ (b.members.map (·.name)).count x
  found : (b.roster.run ops).isSome

theorem RawOperation.addressed_of_valid {op : RawOperation} {m : Model} (hm : m.Unissued)
    {typed : Operation} (h : op.validate m = .ok typed) : op.Addressed m.next m := by
  obtain ⟨htyped, b, hb, hvalid⟩ := validate_eq_ok_iff.mp h
  refine ⟨typed, b, htyped, hb, ?_⟩
  rintro d rfl
  -- The id is that of a node that is there already, or its name.
  have hfound : b.findNode? d.nodeId ≠ none := by
    simpa [Operation.validate, NodeDelete.validate] using hvalid
  obtain ⟨x, hx⟩ := Option.ne_none_iff_exists'.mp hfound
  have hanswers : x.answersTo d.nodeId = true := List.find?_some hx
  obtain ⟨hname, hguid⟩ :=
    hm b (Model.mem_of_resolve? hb) x (List.mem_of_find?_eq_some hx)
  simp only [Node.answersTo, Bool.or_eq_true, decide_eq_true_eq] at hanswers
  rcases hanswers with he | he
  · exact he ▸ hname
  · exact he ▸ hguid

theorem valid_of_mem_operationsOn {m : Model} (hm : m.Coherent) {ops : List RawOperation}
    (hops : ∀ op ∈ ops, ∃ typed, op.validate m = .ok typed) {b : Blueprint} (hb : b ∈ m.loaded)
    {typed : Operation} (h : typed ∈ m.operationsOn b.handle ops) : typed.validate b = .ok () := by
  simp only [Model.operationsOn, List.mem_filter, List.mem_filterMap, Option.any_eq_true,
    decide_eq_true_eq] at h
  obtain ⟨⟨op, hop, htyped⟩, c, hc, he⟩ := h
  obtain ⟨typed', hvalid⟩ := hops op hop
  obtain ⟨htyped', c', hc', hvalid'⟩ := RawOperation.validate_eq_ok_iff.mp hvalid
  obtain rfl := Option.some.inj (htyped.symm.trans htyped')
  obtain rfl := Option.some.inj (hc.symm.trans hc')
  obtain rfl := hm c (Model.mem_of_resolve? hc) b hb he
  exact hvalid'

/-- For operations that are valid one by one, the ledger admits them in turn exactly if the
blueprint does. -/
theorem isSome_run_ledger_iff {m : Model} (hm : m.Coherent) (hnew : m.Unissued)
    {ops : List RawOperation} (hops : ∀ op ∈ ops, ∃ typed, op.validate m = .ok typed)
    {b : Blueprint} (hb : b ∈ m.loaded) :
    ((b.ledger m.next).run (m.operationsOn b.handle ops)).isSome ↔
      b.Admits (m.operationsOn b.handle ops) := by
  have hvalid : ∀ op ∈ renames (m.operationsOn b.handle ops),
      op.oldName ∈ b.members.map (·.name) ∧ op.newName ∉ b.members.map (·.name) := by
    intro op hop
    have h : op.validate b = .ok () :=
      valid_of_mem_operationsOn hm hops hb (mem_renames.mp hop)
    simpa only [VariableRename.validate_eq_ok_iff, hasVariable_iff] using h
  have hfresh : ∀ x ∈ newNames (m.operationsOn b.handle ops), x ∉ b.members.map (·.name) := by
    intro x hx
    obtain ⟨op, hop, rfl⟩ := List.mem_map.mp hx
    exact (hvalid op hop).2
  have hdisjoint : ∀ x ∈ oldNames (m.operationsOn b.handle ops),
      x ∉ newNames (m.operationsOn b.handle ops) := by
    intro x hx hx'
    obtain ⟨op, hop, rfl⟩ := List.mem_map.mp hx
    exact hfresh _ hx' (hvalid op hop).1
  have hnames := isSome_runNames_iff (b.members.map (·.name)) hdisjoint
  rw [Ledger.isSome_run, Bool.and_eq_true]
  constructor
  · rintro ⟨h₁, h₂⟩
    obtain ⟨hdistinct, -, henough⟩ := hnames.mp h₁
    exact ⟨hdistinct, henough, by rw [← rosterOf_of_unissued hnew hb]; exact h₂⟩
  · intro h
    refine ⟨hnames.mpr ⟨h.distinct, hfresh, h.enough⟩, ?_⟩
    have hfound := h.found
    rwa [← rosterOf_of_unissued hnew hb] at hfound

theorem validateAll_eq_ok_iff {m : Model} {ops : List RawOperation} :
    validateAll m ops = .ok () ↔ ∀ op ∈ ops, ∃ typed, op.validate m = .ok typed := by
  induction ops with
  | nil => simp [validateAll]
  | cons op ops ih =>
    cases hv : op.validate m with
    | error r => simp [validateAll, hv]
    | ok typed => simp [validateAll, hv, ih]

namespace Engine

variable {σ : Type} (sink : Sink σ) {text : Json} (s : σ) {e : Engine}

theorem canApply_eq_true_iff :
    (e.canApply text).1 = true ↔
      e.busy = false ∧ (Document.ofValue text).operations ≠ [] ∧
        ∀ op ∈ (Document.ofValue text).operations, ∃ typed, op.validate e.model = .ok typed := by
  rw [← validateAll_eq_ok_iff]
  unfold canApply
  by_cases hbusy : e.busy
  · simp [hbusy]
  · by_cases hempty : (Document.ofValue text).operations = []
    · simp [hbusy, Document.isEmpty, hempty]
    · cases hv : validateAll e.model (Document.ofValue text).operations <;>
        simp [hbusy, Document.isEmpty, hempty, hv]

theorem apply_canApply : (e.canApply text).2.apply sink text s = e.apply sink text s := by
  by_cases hbusy : e.busy
  · simp [canApply, hbusy]
  · simp [canApply, apply, applyWith, hbusy]

/-- A patch that passes the dry run is carried out completely exactly if the transaction is closed
and each blueprint admits the operations on it. -/
theorem dry_run_exact (sink : Sink σ) (text : Json) (e : Engine) (s : σ)
    (hm : e.model.Coherent) (hnew : e.model.Unissued)
    (hsink : ∀ report told s, (sink report told s).2.2 = none)
    (hdry : (e.canApply text).1 = true) :
    let ops := (Document.ofValue text).operations
    (∃ told o,
      (e.canApply text).2.apply sink text s =
        ({ (sink (.success ops.length) told s).1 with busy := false, lastOutcome := some o },
          (sink (.success ops.length) told s).2.1, .ok o) ∧
      o.success = true ∧ o.applied = ops.length ∧ o.count = ops.length ∧
      runInTurn ops e.model = .ok told.model) ↔
    e.scope.isOpen = false ∧
      ∀ b ∈ e.model.loaded, b.Admits (e.model.operationsOn b.handle ops) := by
  intro ops
  obtain ⟨hidle, hne, hvalid⟩ := canApply_eq_true_iff.mp hdry
  have hrun : (∃ m, runInTurn ops e.model = .ok m) ↔
      ∀ b ∈ e.model.loaded, b.Admits (e.model.operationsOn b.handle ops) := by
    rw [runInTurn_ok_iff hm (Nat.le_refl _) fun op hop =>
      RawOperation.addressed_of_valid hnew (hvalid op hop).choose_spec]
    exact forall₂_congr fun b hb => isSome_run_ledger_iff hm hnew hvalid hb
  rw [apply_canApply, ← hrun]
  constructor
  · rintro ⟨told, o, hresult, -, -, -, h⟩
    refine ⟨?_, told.model, h⟩
    cases hopened : e.scope.opened with
    | none => rw [Scope.isOpen, hopened, Option.isSome_none]
    | some x =>
      have hc := apply_of_opened sink s hidle hopened hne
      exact absurd (congrArg (·.2.2) (hresult.symm.trans hc)) (by simp)
  · rintro ⟨hclosed, m, h⟩
    exact ⟨e.committed m, _,
      (apply_of_completed sink s hidle hclosed hne h).trans (finish_of_returned (hsink _ _ _)),
      rfl, rfl, rfl, h⟩

/-- A patch that deletes one node twice passes the dry run and fails. -/
theorem dry_run_accepts_deleteTwice :
    ¬ ∀ (text : Json) (e : Engine), (e.canApply text).1 = true →
      ∃ o, ((e.canApply text).2.apply silentSink text ()).2.2 = .ok o ∧ o.success = true := by
  intro h
  have hdry : (lampEngine.canApply deleteTwice).1 = true := by
    rw [canApply, ofValue_deleteTwice]
    rfl
  obtain ⟨o, ho, hsuccess⟩ := h deleteTwice lampEngine hdry
  have hops : (Document.ofValue deleteTwice).operations = [deleteN 0] ++ deleteN 1 :: [] := by
    rw [ofValue_deleteTwice]
    rfl
  rw [apply_canApply, apply_of_refused silentSink () rfl rfl hops rfl rfl,
    finish_of_returned rfl] at ho
  obtain rfl := Except.ok.inj ho
  simp [Outcome.success] at hsuccess

end Engine

def replaceN : Json :=
  .str (braced ("\"operations\":[" ++ deletionOfN ++ "," ++
    braced ("\"type\":\"node_add\",\"blueprint\":\"Lamp\",\"node_type\":\"VariableGet\"," ++
      "\"variable_name\":\"Lit\"") ++ "]"))

def addGetLit : RawOperation :=
  ⟨1, [("type", .str "node_add"), ("blueprint", .str "Lamp"), ("node_type", .str "VariableGet"),
    ("variable_name", .str "Lit")]⟩

set_option maxRecDepth 4000 in
theorem ofValue_replaceN :
    Document.ofValue replaceN = ⟨[deleteN 0, addGetLit], [], none⟩ := by
  rfl

theorem lampEngine_coherent : lampEngine.model.Coherent := by
  intro b hb c hc _
  obtain rfl := List.mem_singleton.mp hb
  obtain rfl := List.mem_singleton.mp hc
  rfl

theorem lampEngine_unissued : lampEngine.model.Unissued := by
  intro b hb x hx
  obtain rfl := List.mem_singleton.mp hb
  obtain rfl := List.mem_singleton.mp hx
  exact ⟨not_isGeneratedFrom_of_short (by decide), not_isGeneratedFrom_of_short (by decide)⟩

theorem dry_run_exact_replaceN :
    lampEngine.model.Coherent ∧ lampEngine.model.Unissued ∧
    (∀ report told s, (silentSink report told s).2.2 = none) ∧
    (lampEngine.canApply replaceN).1 = true ∧
    ∃ told o, ((lampEngine.canApply replaceN).2.apply silentSink replaceN ()).2.2 = .ok o ∧
      o.success = true ∧ o.applied = 2 ∧
      runInTurn [deleteN 0, addGetLit] lampEngine.model = .ok told := by
  have hdry : (lampEngine.canApply replaceN).1 = true := by
    rw [Engine.canApply, ofValue_replaceN]
    rfl
  refine ⟨lampEngine_coherent, lampEngine_unissued, fun _ _ _ => rfl, hdry, ?_⟩
  have h := Engine.dry_run_exact silentSink replaceN lampEngine () lampEngine_coherent
    lampEngine_unissued (fun _ _ _ => rfl) hdry
  obtain ⟨told, o, hresult, hsuccess, happlied, -, hrun⟩ := h.mpr ⟨rfl, by
    rw [ofValue_replaceN]
    intro b hb
    obtain rfl := List.mem_singleton.mp hb
    exact ⟨by decide, fun x => Nat.zero_le _, by decide⟩⟩
  rw [ofValue_replaceN] at happlied hrun
  exact ⟨told.model, o, by rw [hresult], hsuccess, happlied, hrun⟩

end BlueprintPatch

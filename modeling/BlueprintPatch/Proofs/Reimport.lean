import BlueprintPatch.Context.Export
import BlueprintPatch.Context.Import
import BlueprintPatch.Proofs.Contents
import BlueprintPatch.Proofs.Records

/-! Exported blueprints imported again. What comes back is the content of the blueprint except where
a text that has to be given is empty, or a generic node has a member, for which the export has no
field. -/
namespace BlueprintPatch

/-- The text, if there is any. -/
def given (s : String) : Option String := if s = "" then none else some s

theorem given_eq_some_iff {s t : String} : given s = some t ↔ s = t ∧ s ≠ "" := by
  by_cases h : s = "" <;> simp [given, h, eq_comm]

theorem given_eq_self_iff {s : String} : given s = some s ↔ s ≠ "" := by simp [given_eq_some_iff]

theorem getD_given_eq_self_iff {s d : String} (hd : d ≠ "") : (given s).getD d = s ↔ s ≠ "" := by
  by_cases h : s = "" <;> simp [given, h, hd]

theorem bind_given_eq_self_iff {o : Option String} : o.bind given = o ↔ o ≠ some "" := by
  cases o with
  | none => simp
  | some s => simp [given_eq_self_iff]

/-- Text that is empty is filled in or left open, as it is for a field that is absent. -/
def Pin.reimported (p : Pin) : PinDraft :=
  { p.draft with id := given p.id, pinType := (given p.pinType).getD wildcardType }

def Node.reimported (x : Node) : NodeDraft where
  name := x.name
  guid := given x.guid
  kind := x.kind
  memberName := if x.kind = .generic then none else x.memberName.bind given
  posX := x.posX
  posY := x.posY
  pins := x.pins.map Pin.reimported

def Graph.reimported (g : Graph) : GraphDraft :=
  ⟨g.name, g.graphType, g.nodes.map Node.reimported⟩

def Variable.reimported (v : Variable) : VariableDraft :=
  { v.draft with varType := (given v.varType).getD "bool" }

def Blueprint.reimported (b : Blueprint) : BlueprintDraft :=
  ⟨b.name, b.path, b.parentClass.bind given, b.members.map Variable.reimported,
    b.graphs.map Graph.reimported, false, 0⟩

namespace Context

theorem fieldOr_of_get? {fields : Fields} {name : String} {v : Json}
    (h : fields.get? name = some v) (default : Json) : fieldOr name default fields = v := by
  simp [fieldOr, h]

/-- The value is an object from whose fields `a` is converted. -/
def Converts {α : Type} (convert : Fields → Import α) (v : Json) (a : α) : Prop :=
  ∃ fields, v = .obj fields ∧ convert fields = .ok a

theorem mapM_converts {α β : Type} {convert : Fields → Import β} {record : α → Json} {draft : α → β}
    (h : ∀ a, Converts convert (record a) (draft a)) (as : List α) :
    ((as.map record).filterMap Json.fields?).mapM convert = .ok (as.map draft) := by
  induction as with
  | nil => rfl
  | cons a as ih =>
    obtain ⟨fields, hfields, hconvert⟩ := h a
    have hhead : (record a).fields? = some fields := by rw [hfields]; rfl
    rw [List.map_cons, List.filterMap_cons_some hhead, List.mapM_cons, hconvert, ih]
    rfl

theorem objectsOf_map {α β : Type} {convert : Fields → Import β} {record : α → Json}
    {draft : α → β} (h : ∀ a, Converts convert (record a) (draft a)) {as : List α} {name : String}
    {fields : Fields} (hfield : fields.get? name = some (.arr (as.map record))) :
    objectsOf name convert fields = .ok (as.map draft) := by
  rw [objectsOf, fieldOr_of_get? hfield]
  exact mapM_converts h as

theorem firstTruthy_text (s default : String) :
    firstTruthy (.str s) [.str default] = .str ((given s).getD default) := by
  by_cases hs : s = "" <;> simp [firstTruthy, Json.isTruthy, given, hs]

theorem idField_text {fields : Fields} {name key s : String}
    (h : fields.get? key = some (.str s)) :
    idField name key fields = if s = "" then [] else [(name, .str s)] := by
  by_cases hs : s = "" <;> simp [idField, h, Json.isTruthy, hs]

theorem directionOf_name {fields : Fields} {d : PinDirection}
    (h : fields.get? "direction" = some (.str d.name)) : directionOf fields = d := by
  rw [directionOf, h]
  cases d <;> rfl

theorem converts_variable (v : Variable) :
    Converts importVariable (exportVariable v) v.reimported := by
  refine ⟨_, rfl, ?_⟩
  simp [importVariable, checked, VariableDraft.check, Fields.take, Fields.need, Fields.get?_cons,
    fieldOr, truthyOr, firstTruthy_text, Rule.text, Rule.flag, Json.asText, Json.isTruthy,
    Checked.within, Checked.about, Variable.reimported, Variable.draft]

theorem converts_pin (p : Pin) : Converts importPin (exportPin p) p.reimported := by
  refine ⟨_, rfl, ?_⟩
  have htext : ∀ s, Rule.text (.str s) = .ok (id s) := fun _ => rfl
  have hlinks : Rule.list Rule.text (.arr (p.linkedTo.map .str)) = .ok p.linkedTo := by
    rw [Rule.list_map htext, List.map_id]
  have hdirection := PinDirection.ofName?_name p.direction
  rw [importPin, idField_text rfl, directionOf_name rfl]
  by_cases hid : p.id = "" <;>
    simp [coerce, Json.toItems, Except.mapError, checked, PinDraft.check, hid, Fields.take,
      Fields.need, Fields.get?_cons, fieldOr, truthyOr, firstTruthy_text, Rule.text, Rule.choice,
      hdirection, hlinks, Json.asText, Checked.within, Checked.about, Pin.reimported, Pin.draft,
      given, bind, Except.bind]

theorem get?_append_of_none {name : String} {fields : Fields} (h : fields.get? name = none)
    (rest : Fields) : (fields ++ rest).get? name = rest.get? name := by
  simp only [Fields.get?] at h ⊢
  rw [List.lookup_append, h, Option.none_or]

theorem memberOf_append {fields : Fields} (hvariable : fields.get? "variableName" = none)
    (hfunction : fields.get? "functionName" = none) (hevent : fields.get? "eventName" = none)
    (x : Node) :
    memberOf (fields ++ memberFields x) =
      optionalText (if x.kind = .generic then none else x.memberName.bind given) := by
  simp only [memberOf, fieldOr, get?_append_of_none hvariable, get?_append_of_none hfunction,
    get?_append_of_none hevent]
  unfold memberFields
  cases hmember : x.memberName with
  | none =>
    cases hkind : x.kind <;> simp [memberField?, firstTruthy, Json.isTruthy, optionalText]
  | some name =>
    by_cases hname : name = ""
    · cases hkind : x.kind <;>
        simp [memberField?, hname, firstTruthy, Json.isTruthy, optionalText, given]
    · cases hkind : x.kind <;>
        simp [memberField?, hname, firstTruthy, Json.isTruthy, optionalText, given,
          Fields.get?_cons]

theorem kindOf_className {fields : Fields} {k : NodeKind}
    (h : fields.get? "class" = some (.str k.className)) : kindOf fields = .ok k := by
  rw [kindOf, fieldOr_of_get? h]
  cases k <;> rfl

theorem converts_node (x : Node) : Converts importNode (exportNode x) x.reimported := by
  refine ⟨_, rfl, ?_⟩
  have hkind := NodeKind.ofName?_name x.kind
  rw [importNode, kindOf_className rfl, objectsOf_map converts_pin rfl, idField_text rfl,
    memberOf_append rfl rfl rfl]
  by_cases hguid : x.guid = "" <;>
    simp [coerce, Json.toNumber, Except.mapError, checked, NodeDraft.checkAround, hguid,
      Fields.take, Fields.need, Fields.get?_cons, fieldOr, Rule.text, Rule.choice, Rule.number, hkind,
      Rule.optional_optionalText, Checked.within, Checked.about, Node.reimported, given, bind,
      Except.bind]

theorem graphTypeOf_name {fields : Fields} {t : GraphType}
    (h : fields.get? "graphType" = some (.str t.name)) : graphTypeOf fields = t := by
  simp only [graphTypeOf, h, GraphType.ofName?_name]

theorem converts_graph (g : Graph) : Converts importGraph (exportGraph g) g.reimported := by
  refine ⟨_, rfl, ?_⟩
  have htype := GraphType.ofName?_name g.graphType
  rw [importGraph, objectsOf_map converts_node rfl, graphTypeOf_name rfl]
  simp [checked, GraphDraft.checkAround, Fields.take, Fields.need, Fields.get?_cons, fieldOr,
    Rule.text, Rule.choice, htype, Checked.within, Checked.about, Graph.reimported, bind,
    Except.bind]

theorem parentClass_append {fields : Fields} (h : fields.get? "parentClass" = none)
    (b : Blueprint) :
    fieldOr "parentClass" .null (fields ++ parentFields b) =
      optionalText (b.parentClass.bind given) := by
  rw [fieldOr, get?_append_of_none h, parentFields]
  cases b.parentClass with
  | none => rfl
  | some name => by_cases hname : name = "" <;> simp [hname, given, optionalText, Fields.get?_cons]

theorem importContext_exportContext (time : String) (b : Blueprint) :
    importContext (exportContext time b) =
      if b.name = "" then .error .noName else .ok b.reimported := by
  show importFields _ = _
  rw [importFields, objectsOf_map converts_variable rfl, objectsOf_map converts_graph rfl,
    parentClass_append rfl]
  by_cases hname : b.name = "" <;>
    simp [hname, checked, BlueprintDraft.checkAround, Fields.take, Fields.need, Fields.get?_cons,
      fieldOr, Json.isTruthy, Rule.text, Rule.optional_optionalText, Checked.within, Checked.about,
      Blueprint.reimported, bind, Except.bind]

end Context

/-- The export of the pin says all that the pin holds. -/
def Pin.Exportable (p : Pin) : Prop := p.id ≠ "" ∧ p.pinType ≠ ""

structure Node.Exportable (x : Node) : Prop where
  guid : x.guid ≠ ""
  member : x.memberName ≠ some ""
  generic : x.kind = .generic → x.memberName = none
  pins : ∀ p ∈ x.pins, p.Exportable

structure Blueprint.Exportable (b : Blueprint) : Prop where
  name : b.name ≠ ""
  parent : b.parentClass ≠ some ""
  members : ∀ v ∈ b.members, v.varType ≠ ""
  nodes : ∀ x ∈ b.allNodes, x.Exportable

theorem Pin.reimported_eq_iff {p : Pin} : p.reimported = p.draft ↔ p.Exportable := by
  have htype : (given p.pinType).getD wildcardType = p.pinType ↔ p.pinType ≠ "" :=
    getD_given_eq_self_iff (by decide)
  simp [reimported, draft, Exportable, given_eq_self_iff, htype]

theorem Node.reimported_eq_iff {x : Node} : x.reimported = x.draft ↔ x.Exportable := by
  have hpins : x.pins.map Pin.reimported = x.pins.map Pin.draft ↔ ∀ p ∈ x.pins, p.Exportable := by
    simp only [List.map_inj_left, Pin.reimported_eq_iff]
  have hmember : (if x.kind = .generic then none else x.memberName.bind given) = x.memberName ↔
      x.memberName ≠ some "" ∧ (x.kind = .generic → x.memberName = none) := by
    by_cases hkind : x.kind = .generic
    · rw [if_pos hkind]
      constructor
      · intro h
        rw [← h]
        exact ⟨by simp, fun _ => rfl⟩
      · exact fun h => (h.2 hkind).symm
    · rw [if_neg hkind, bind_given_eq_self_iff]
      exact ⟨fun h => ⟨h, fun he => absurd he hkind⟩, fun h => h.1⟩
  simp only [reimported, draft, NodeDraft.mk.injEq, given_eq_self_iff, hmember, hpins, true_and]
  constructor
  · rintro ⟨hguid, ⟨hempty, hgeneric⟩, hpins⟩
    exact ⟨hguid, hempty, hgeneric, hpins⟩
  · rintro ⟨hguid, hempty, hgeneric, hpins⟩
    exact ⟨hguid, ⟨hempty, hgeneric⟩, hpins⟩

theorem Graph.reimported_eq_iff {g : Graph} :
    g.reimported = g.draft ↔ ∀ x ∈ g.nodes, x.Exportable := by
  simp [reimported, draft, Node.reimported_eq_iff]

theorem Variable.reimported_eq_iff {v : Variable} : v.reimported = v.draft ↔ v.varType ≠ "" := by
  have htype : (given v.varType).getD "bool" = v.varType ↔ v.varType ≠ "" :=
    getD_given_eq_self_iff (by decide)
  simp [reimported, draft, htype]

/-- An export that is imported gives all that the blueprint holds, the notes about its changes
apart, if and only if the blueprint is one whose export says it all; and the objects that are made of
it hold the same. -/
theorem import_export_iff (time : String) (b : Blueprint) :
    (Context.importContext (Context.exportContext time b) = .ok b.content ↔ b.Exportable) ∧
      ∀ n, (b.content.make n).1.draft = b.content := by
  refine ⟨?_, draft_make_content b⟩
  have hparts : b.reimported = b.content ↔ b.parentClass ≠ some "" ∧
      (∀ v ∈ b.members, v.varType ≠ "") ∧ ∀ x ∈ b.allNodes, x.Exportable := by
    simp only [Blueprint.reimported, Blueprint.content, Blueprint.draft, BlueprintDraft.mk.injEq,
      bind_given_eq_self_iff, List.map_inj_left, Variable.reimported_eq_iff,
      Graph.reimported_eq_iff, Blueprint.allNodes, List.forall_mem_flatMap, true_and, and_true]
  rw [Context.importContext_exportContext]
  by_cases hname : b.name = ""
  · rw [if_pos hname]
    exact ⟨fun h => (by cases h), fun h => absurd hname h.name⟩
  · rw [if_neg hname, Except.ok.injEq, hparts]
    constructor
    · rintro ⟨hparent, hmembers, hnodes⟩
      exact ⟨hname, hparent, hmembers, hnodes⟩
    · rintro ⟨-, hparent, hmembers, hnodes⟩
      exact ⟨hparent, hmembers, hnodes⟩

end BlueprintPatch

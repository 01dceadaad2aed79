import BlueprintPatch.Proofs.Batch
import BlueprintPatch.Proofs.Registry
import BlueprintPatch.Proofs.Taking

/-! What one operation does. It is read without a look at the model, it names one blueprint, and
it changes that blueprint only; whether it succeeds depends on that blueprint only. -/
namespace BlueprintPatch

theorem Fields.need_eq_ok {α : Type} {fields : Fields} {name : String} {rule : Rule α} {a : α}
    (h : fields.need name rule = .ok a) : ∃ v, fields.get? name = some v ∧ rule v = .ok a := by
  unfold need at h
  cases hv : fields.get? name with
  | none => simp [hv, Checked.fail, Checked.within] at h
  | some v =>
    refine ⟨v, rfl, ?_⟩
    cases hr : rule v with
    | ok b => simpa [hv, hr, Checked.within] using h
    | errors es => simp [hv, hr, Checked.within] at h

theorem Rule.nonemptyText_eq_ok {v : Json} {s : String} (h : nonemptyText v = .ok s) :
    v = .str s ∧ s ≠ "" := by
  cases v with
  | str t =>
    by_cases hne : t = ""
    · simp [nonemptyText, hne, Checked.fail] at h
    · obtain rfl : t = s := by simpa [nonemptyText, hne] using h
      exact ⟨rfl, hne⟩
  | _ => simp [nonemptyText, text, Checked.fail] at h

theorem Fields.need_nonemptyText {fields : Fields} {name s : String}
    (h : fields.need name Rule.nonemptyText = .ok s) :
    fields.get? name = some (.str s) ∧ s ≠ "" := by
  obtain ⟨v, hv, hs⟩ := need_eq_ok h
  obtain ⟨rfl, hne⟩ := Rule.nonemptyText_eq_ok hs
  exact ⟨hv, hne⟩

theorem Checked.map_eq_ok {α β : Type} {f : α → β} {x : Checked α} {b : β}
    (h : f <$> x = .ok b) : ∃ a, x = .ok a ∧ f a = b := by
  cases x with
  | ok a => exact ⟨a, rfl, by injection h⟩
  | errors es => simp [Functor.map, Checked.map] at h

theorem checkHeader_blueprint {declared : List String} {fields : Fields} {header : Header}
    (h : checkHeader declared fields = .ok header) :
    fields.get? "blueprint" = some (.str header.blueprint) := by
  obtain ⟨f, d, hf, -, rfl⟩ := Checked.seq_eq_ok h
  obtain ⟨g, id, hg, hid, rfl⟩ := Checked.seq_eq_ok hf
  obtain ⟨type, -, rfl⟩ := Checked.map_eq_ok hg
  exact (Fields.need_nonemptyText hid).1

theorem Operation.check_eq_ok {kind : OperationKind} {fields : Fields} {op : Operation}
    (h : check kind fields = .ok op) :
    op.kind = kind ∧ fields.get? "blueprint" = some (.str op.header.blueprint) := by
  cases kind with
  | variableRename =>
    obtain ⟨r, hr, rfl⟩ := Checked.map_eq_ok h
    obtain ⟨f, new, hf, -, rfl⟩ := Checked.seq_eq_ok hr
    obtain ⟨g, old, hg, -, rfl⟩ := Checked.seq_eq_ok hf
    obtain ⟨header, hh, rfl⟩ := Checked.map_eq_ok hg
    exact ⟨rfl, checkHeader_blueprint hh⟩
  | nodeAdd =>
    obtain ⟨r, hr, rfl⟩ := Checked.map_eq_ok h
    obtain ⟨f₁, position, h₁, -, rfl⟩ := Checked.seq_eq_ok hr
    obtain ⟨f₂, function, h₂, -, rfl⟩ := Checked.seq_eq_ok h₁
    obtain ⟨f₃, var, h₃, -, rfl⟩ := Checked.seq_eq_ok h₂
    obtain ⟨f₄, graph, h₄, -, rfl⟩ := Checked.seq_eq_ok h₃
    obtain ⟨f₅, type, h₅, -, rfl⟩ := Checked.seq_eq_ok h₄
    obtain ⟨header, hh, rfl⟩ := Checked.map_eq_ok h₅
    exact ⟨rfl, checkHeader_blueprint hh⟩
  | nodeDelete =>
    obtain ⟨r, hr, rfl⟩ := Checked.map_eq_ok h
    obtain ⟨f, id, hf, -, rfl⟩ := Checked.seq_eq_ok hr
    obtain ⟨header, hh, rfl⟩ := Checked.map_eq_ok hf
    exact ⟨rfl, checkHeader_blueprint hh⟩
  | nodeModify =>
    obtain ⟨header, hh, rfl⟩ := Checked.map_eq_ok h
    exact ⟨rfl, checkHeader_blueprint hh⟩
  | connectionAdd =>
    obtain ⟨header, hh, rfl⟩ := Checked.map_eq_ok h
    exact ⟨rfl, checkHeader_blueprint hh⟩
  | connectionRemove =>
    obtain ⟨header, hh, rfl⟩ := Checked.map_eq_ok h
    exact ⟨rfl, checkHeader_blueprint hh⟩

theorem Checked.about_eq_ok {α : Type} {record : RecordKind} {c : Checked α} {a : α} :
    c.about record = .ok a ↔ c = .ok a := by
  cases c <;> simp [Checked.about]

namespace RawOperation

/-- The typed record of an operation that can be carried out in some model. -/
def typed? (op : RawOperation) : Option Operation :=
  match op.type?, op.blueprint?, op.kind? with
  | some _, some _, some kind =>
    match Operation.check kind op.fields with
    | .ok typed => if kind.isImplemented then some typed else none
    | .errors _ => none
  | _, _, _ => none

theorem typed?_eq_some {op : RawOperation} {typed : Operation} (h : op.typed? = some typed) :
    ∃ type kind, op.type? = some type ∧ op.blueprint? = some typed.header.blueprint ∧
      op.kind? = some kind ∧ kind.isImplemented = true ∧
      Operation.check kind op.fields = .ok typed := by
  unfold typed? at h
  split at h
  · next type id kind htype hid hkind =>
    split at h
    · next c hcheck =>
      by_cases himpl : kind.isImplemented = true
      · obtain rfl : c = typed := by simpa [himpl] using h
        have hblueprint := (Operation.check_eq_ok hcheck).2
        refine ⟨type, kind, htype, ?_, hkind, himpl, hcheck⟩
        rw [hid]
        rw [blueprint?, textField?_str hblueprint] at hid
        split at hid
        · contradiction
        · exact hid.symm
      · simp [himpl] at h
    · contradiction
  · contradiction

theorem typed?_of_check {op : RawOperation} {type id : String} {kind : OperationKind}
    {typed : Operation} (htype : op.type? = some type) (hid : op.blueprint? = some id)
    (hkind : op.kind? = some kind) (himpl : kind.isImplemented = true)
    (hcheck : Operation.check kind op.fields = .ok typed) : op.typed? = some typed := by
  simp [typed?, htype, hid, hkind, himpl, hcheck]

theorem target?_of_check {op : RawOperation} {kind : OperationKind} {typed : Operation}
    (h : Operation.check kind op.fields = .ok typed) (m : Model) :
    op.target? m = m.resolve? typed.header.blueprint := by
  rw [target?, (Operation.check_eq_ok h).2]
  rfl

theorem validate_eq_ok_iff {op : RawOperation} {m : Model} {typed : Operation} :
    op.validate m = .ok typed ↔
      op.typed? = some typed ∧
        ∃ b, m.resolve? typed.header.blueprint = some b ∧ typed.validate b = .ok () := by
  constructor
  · intro h
    unfold validate at h
    split at h
    · contradiction
    · contradiction
    · next type id htype hid =>
      split at h
      · contradiction
      · next kind hkind =>
        split at h
        · contradiction
        · next himpl =>
          split at h
          · contradiction
          · next b hb =>
            split at h
            · contradiction
            · next c hc =>
              have himpl' : kind.isImplemented = true := by simpa using himpl
              have hcheck := Checked.about_eq_ok.mp hc
              cases hv : c.validate b with
              | error r => simp [hv, Except.map] at h
              | ok u =>
                obtain rfl : c = typed := by simpa [hv, Except.map] using h
                exact ⟨typed?_of_check htype hid hkind himpl' hcheck, b,
                  target?_of_check hcheck m ▸ hb, hv⟩
  · rintro ⟨htyped, b, hb, hv⟩
    obtain ⟨type, kind, htype, hid, hkind, himpl, hcheck⟩ := typed?_eq_some htyped
    have hc : (Operation.check kind op.fields).about kind.record = .ok typed :=
      Checked.about_eq_ok.mpr hcheck
    have htarget := (target?_of_check hcheck m).trans hb
    simp [validate, htype, hid, hkind, himpl, htarget, hc, hv, Except.map]

end RawOperation

theorem Blueprint.newNode_eq (kind : NodeKind) (member : Option String) (x y : Binary64) (n : Nat)
    (b : Blueprint) :
    b.newNode kind member x y n =
      ⟨n, b.freshNodeName kind, generatedId n, kind, member, x, y, newPins (n + 1)
        ((kind.pinSpecs? (member.getD "") (b.valueType (member.getD ""))).getD [])⟩ := by
  simp only [newNode, Node.allocate]
  cases kind.pinSpecs? (member.getD "") (b.valueType (member.getD "")) <;> rfl

theorem Node.reconstruct_eq (x : Node) (valueType : String) (previous : Option String) (n : Nat) :
    ∃ pins, x.reconstruct valueType previous n = { x with pins := pins } := by
  unfold reconstruct
  split
  · exact ⟨x.pins, rfl⟩
  · exact ⟨_, rfl⟩

theorem rewireNode_eq (valueType old new : String) (n : Nat) (x : Node) :
    ∃ pins, Blueprint.rewireNode valueType old new n x =
      { x with
        memberName := if Blueprint.refersTo old x then some new else x.memberName
        pins := pins } := by
  unfold Blueprint.rewireNode
  by_cases hrefers : Blueprint.refersTo old x
  · simp only [hrefers, if_true]
    exact Node.reconstruct_eq { x with memberName := some new } valueType (some old) n
  · simp only [hrefers]
    exact ⟨x.pins, rfl⟩

section

variable {β : Type} {f : Node → β}

theorem map_rewireNodes
    (hf : ∀ x member pins, f { x with memberName := member, pins := pins } = f x)
    (valueType old new : String) (n : Nat) (xs : List Node) :
    (Blueprint.rewireNodes valueType old new n xs).map f = xs.map f := by
  induction xs generalizing n with
  | nil => rfl
  | cons x xs ih =>
    obtain ⟨pins, hpins⟩ := rewireNode_eq valueType old new n x
    rw [Blueprint.rewireNodes, List.map_cons, List.map_cons, ih, hpins, hf]

theorem map_rewireGraphs
    (hf : ∀ x member pins, f { x with memberName := member, pins := pins } = f x)
    (valueType old new : String) (n : Nat) (gs : List Graph) :
    ((Blueprint.rewireGraphs valueType old new n gs).flatMap (·.nodes)).map f =
      (gs.flatMap (·.nodes)).map f := by
  induction gs generalizing n with
  | nil => rfl
  | cons g gs ih =>
    simp only [Blueprint.rewireGraphs, List.flatMap_cons, List.map_append, map_rewireNodes hf, ih]

end

/-- The kind and the member of the node that is added, if both are known. -/
def NodeAdd.target? (op : NodeAdd) : Option (NodeKind × String) :=
  match op.kind?, op.memberName? with
  | some kind, some name => if name = "" then none else some (kind, name)
  | _, _ => none

theorem NodeAdd.target_eq_ok_iff {op : NodeAdd} {unsupported : String → Refusal}
    {t : NodeKind × String} : op.target unsupported = .ok t ↔ op.target? = some t := by
  unfold target target?
  have hfield : op.memberField?.isSome = op.kind?.isSome := by
    simp [memberField?, kind?]
  cases hk : op.kind? with
  | none => simp
  | some kind =>
    obtain ⟨field, hf⟩ := Option.isSome_iff_exists.mp (hfield.trans (by rw [hk]; rfl))
    cases hn : op.memberName? with
    | none => simp [hf]
    | some name => by_cases he : name = "" <;> simp [hf, he]

def VariableRename.rename (op : VariableRename) (n : Nat) (b : Blueprint) : Blueprint :=
  ((b.renameVariable op.oldName op.newName).rewire op.oldName op.newName n).markModified

/-- The node that the operation adds to the blueprint. -/
def NodeAdd.node (op : NodeAdd) (t : NodeKind × String) (n : Nat) (b : Blueprint) : Node :=
  b.newNode t.1 (some t.2) op.position.x op.position.y n

def NodeAdd.add (op : NodeAdd) (node : Node) (b : Blueprint) : Blueprint :=
  (b.addNode (·.name = op.graph) node).markModified

theorem Model.resolve_eq_ok_iff {id : String} {m : Model} {b : Blueprint} :
    m.resolve id = .ok b ↔ m.resolve? id = some b := by
  unfold resolve
  cases m.resolve? id <;> simp

theorem VariableRename.validate_eq_ok_iff {op : VariableRename} {b : Blueprint} :
    op.validate b = .ok () ↔ b.hasVariable op.oldName ∧ ¬ b.hasVariable op.newName := by
  by_cases hold : b.hasVariable op.oldName <;> by_cases hnew : b.hasVariable op.newName <;>
    simp [validate, hold, hnew]

theorem VariableRename.apply_eq_ok_iff {op : VariableRename} {m m' : Model} {summary : String} :
    op.apply m = .ok (m', summary) ↔
      ∃ b, m.resolve? op.header.blueprint = some b ∧
        (b.hasVariable op.oldName ∧ ¬ b.hasVariable op.newName) ∧
        (m.update (op.rename m.next b)).draw (b.rewiringCost op.oldName) = m' ∧
        "Renamed " ++ op.oldName ++ " -> " ++ op.newName = summary := by
  simp only [apply, bind_eq_ok_iff, Model.resolve_eq_ok_iff, Except.ok.injEq, Prod.mk.injEq,
    ← validate_eq_ok_iff]
  refine exists_congr fun b => and_congr_right fun _ => ?_
  constructor
  · rintro ⟨⟨⟩, h⟩
    exact h
  · exact fun h => ⟨(), h⟩

theorem NodeAdd.apply_eq_ok_iff {op : NodeAdd} {m m' : Model} {summary : String} :
    op.apply m = .ok (m', summary) ↔
      ∃ b, m.resolve? op.header.blueprint = some b ∧ b.hasGraph op.graph ∧
        ∃ t, op.target? = some t ∧
          (m.update (op.add (op.node t m.next b) b)).draw (1 + (op.node t m.next b).pins.length)
            = m' ∧
          "Added " ++ (op.node t m.next b).name = summary := by
  simp only [apply, bind_eq_ok_iff, Model.resolve_eq_ok_iff]
  refine exists_congr fun b => and_congr_right fun _ => ?_
  by_cases hgraph : b.hasGraph op.graph
  · simp only [hgraph, not_true_eq_false, if_false, true_and, bind_eq_ok_iff,
      target_eq_ok_iff, Except.ok.injEq, Prod.mk.injEq]
    rfl
  · simp [hgraph, bind, Except.bind]

theorem NodeDelete.apply_eq_ok_iff {op : NodeDelete} {m m' : Model} {summary : String} :
    op.apply m = .ok (m', summary) ↔
      ∃ b, m.resolve? op.header.blueprint = some b ∧
        ∃ c, b.removeNode? (·.answersTo op.nodeId) = some c ∧ m.update c.markModified = m' ∧
          "Deleted " ++ op.nodeId = summary := by
  simp only [apply, bind_eq_ok_iff, Model.resolve_eq_ok_iff]
  refine exists_congr fun b => and_congr_right fun _ => ?_
  cases b.removeNode? (·.answersTo op.nodeId) <;> simp

namespace Operation

/-- What the operation makes of its blueprint with the numbers from `n` on, and how many of them
it takes; none if it fails. -/
def change (n : Nat) (b : Blueprint) : Operation → Option (Blueprint × Nat)
  | .variableRename op =>
    if b.hasVariable op.oldName ∧ ¬ b.hasVariable op.newName then
      some (op.rename n b, b.rewiringCost op.oldName)
    else none
  | .nodeAdd op =>
    if b.hasGraph op.graph then
      op.target?.map fun t => (op.add (op.node t n b) b, 1 + (op.node t n b).pins.length)
    else none
  | .nodeDelete op => (b.removeNode? (·.answersTo op.nodeId)).map fun c => (c.markModified, 0)
  | .unsupported _ _ => none

theorem apply_eq_ok_iff {op : Operation} {m m' : Model} :
    (∃ summary, op.apply m = .ok (m', summary)) ↔
      ∃ b c k, m.resolve? op.header.blueprint = some b ∧ op.change m.next b = some (c, k) ∧
        m' = (m.update c).draw k := by
  cases op with
  | variableRename op =>
    simp only [apply, VariableRename.apply_eq_ok_iff]
    constructor
    · rintro ⟨_, b, hb, hnames, rfl, rfl⟩
      exact ⟨b, _, _, hb, if_pos hnames, rfl⟩
    · rintro ⟨b, c, k, hb, hchange, rfl⟩
      obtain ⟨hnames, hck⟩ := Option.ite_none_right_eq_some.mp hchange
      obtain ⟨rfl, rfl⟩ := Prod.mk.inj (Option.some.inj hck)
      exact ⟨_, b, hb, hnames, rfl, rfl⟩
  | nodeAdd op =>
    simp only [apply, NodeAdd.apply_eq_ok_iff]
    constructor
    · rintro ⟨_, b, hb, hgraph, t, ht, rfl, rfl⟩
      exact ⟨b, _, _, hb, by simp only [change, hgraph, if_true, ht, Option.map_some], rfl⟩
    · rintro ⟨b, c, k, hb, hchange, rfl⟩
      obtain ⟨hgraph, hck⟩ := Option.ite_none_right_eq_some.mp hchange
      obtain ⟨t, ht, hck⟩ := Option.map_eq_some_iff.mp hck
      obtain ⟨rfl, rfl⟩ := Prod.mk.inj hck
      exact ⟨_, b, hb, hgraph, t, ht, rfl, rfl⟩
  | nodeDelete op =>
    simp only [apply, NodeDelete.apply_eq_ok_iff]
    constructor
    · rintro ⟨_, b, hb, c, hc, rfl, rfl⟩
      exact ⟨b, c.markModified, 0, hb, by simp only [change, hc, Option.map_some], rfl⟩
    · rintro ⟨b, c, k, hb, hchange, rfl⟩
      obtain ⟨c, hc, hck⟩ := Option.map_eq_some_iff.mp hchange
      obtain ⟨rfl, rfl⟩ := Prod.mk.inj hck
      exact ⟨_, b, hb, c, hc, rfl, rfl⟩
  | unsupported kind header => simp [apply, change]

theorem validate_eq_ok_iff {op : Operation} (n : Nat) {b : Blueprint} :
    op.validate b = .ok () ↔ (op.change n b).isSome := by
  cases op with
  | variableRename op =>
    rw [validate, VariableRename.validate_eq_ok_iff, change]
    by_cases h : b.hasVariable op.oldName ∧ ¬ b.hasVariable op.newName
    · rw [if_pos h]
      exact ⟨fun _ => rfl, fun _ => h⟩
    · rw [if_neg h]
      exact ⟨fun h' => absurd h' h, fun h' => by simp at h'⟩
  | nodeAdd op =>
    simp only [validate, NodeAdd.validate, bind_eq_ok_iff, NodeAdd.target_eq_ok_iff, change]
    by_cases hgraph : b.hasGraph op.graph
    · simp [hgraph, Option.isSome_iff_exists]
    · simp [hgraph]
  | nodeDelete op =>
    rw [validate, NodeDelete.validate, change, Option.isSome_map, Blueprint.isSome_removeNode?,
      Blueprint.findNode?]
    cases b.allNodes.find? (·.answersTo op.nodeId) <;> simp
  | unsupported kind header => simp [validate, change]

/-- What an operation makes of a blueprint, kind by kind. -/
theorem change_cases {op : Operation} {n k : Nat} {b c : Blueprint}
    (h : op.change n b = some (c, k)) :
    (∃ r, op = .variableRename r ∧ (b.hasVariable r.oldName ∧ ¬ b.hasVariable r.newName) ∧
      c = r.rename n b ∧ k = b.rewiringCost r.oldName) ∨
    (∃ a t, op = .nodeAdd a ∧ b.hasGraph a.graph ∧ a.target? = some t ∧
      c = a.add (a.node t n b) b ∧ k = 1 + (a.node t n b).pins.length) ∨
    ∃ d left, op = .nodeDelete d ∧ b.removeNode? (·.answersTo d.nodeId) = some left ∧
      c = left.markModified ∧ k = 0 := by
  cases op with
  | variableRename r =>
    obtain ⟨hnames, hck⟩ := Option.ite_none_right_eq_some.mp h
    obtain ⟨rfl, rfl⟩ := Prod.mk.inj (Option.some.inj hck)
    exact .inl ⟨r, rfl, hnames, rfl, rfl⟩
  | nodeAdd a =>
    obtain ⟨hgraph, hck⟩ := Option.ite_none_right_eq_some.mp h
    obtain ⟨t, ht, hck⟩ := Option.map_eq_some_iff.mp hck
    obtain ⟨rfl, rfl⟩ := Prod.mk.inj hck
    exact .inr (.inl ⟨a, t, rfl, hgraph, ht, rfl, rfl⟩)
  | nodeDelete d =>
    obtain ⟨left, hleft, hck⟩ := Option.map_eq_some_iff.mp h
    obtain ⟨rfl, rfl⟩ := Prod.mk.inj hck
    exact .inr (.inr ⟨d, left, rfl, hleft, rfl, rfl⟩)
  | unsupported kind header => simp [change] at h

theorem sameIdentity_of_change {op : Operation} {n k : Nat} {b c : Blueprint}
    (h : op.change n b = some (c, k)) : Model.SameIdentity b c := by
  rcases change_cases h with
    ⟨r, -, -, rfl, -⟩ | ⟨a, t, -, -, -, rfl, -⟩ | ⟨d, left, -, hleft, rfl, -⟩
  · exact ⟨rfl, rfl, rfl⟩
  · exact ⟨rfl, rfl, rfl⟩
  · obtain ⟨r, -, rfl⟩ := Option.map_eq_some_iff.mp hleft
    exact ⟨rfl, rfl, rfl⟩

end Operation

/-- The first model becomes the second by the operation, which makes `c` of the blueprint `b` with
`k` numbers of the supply. -/
structure Operation.Leads (op : Operation) (m m' : Model) (b c : Blueprint) (k : Nat) : Prop where
  resolved : m.resolve? op.header.blueprint = some b
  changed : op.change m.next b = some (c, k)
  result : m' = (m.update c).draw k

theorem Operation.apply_ok_iff_leads {op : Operation} {m m' : Model} :
    (∃ summary, op.apply m = .ok (m', summary)) ↔ ∃ b c k, op.Leads m m' b c k := by
  rw [apply_eq_ok_iff]
  constructor
  · rintro ⟨b, c, k, hb, hc, hm⟩
    exact ⟨b, c, k, hb, hc, hm⟩
  · rintro ⟨b, c, k, hb, hc, hm⟩
    exact ⟨b, c, k, hb, hc, hm⟩

/-- An operation is carried out exactly if it can be read and changes the blueprint it names. -/
theorem RawOperation.step_eq_ok_iff {op : RawOperation} {m m' : Model} :
    op.step m = .ok m' ↔ ∃ typed b c k, op.typed? = some typed ∧ typed.Leads m m' b c k := by
  unfold step
  constructor
  · intro h
    cases hv : op.validate m with
    | error r => simp [hv] at h
    | ok typed =>
      cases ha : typed.apply m with
      | error r => simp [hv, ha, Except.map] at h
      | ok p =>
        obtain rfl : p.1 = m' := by simpa [hv, ha, Except.map] using h
        obtain ⟨b, c, k, hleads⟩ := Operation.apply_ok_iff_leads.mp ⟨p.2, ha⟩
        exact ⟨typed, b, c, k, (validate_eq_ok_iff.mp hv).1, hleads⟩
  · rintro ⟨typed, b, c, k, htyped, hleads⟩
    have hvalid : typed.validate b = .ok () :=
      (Operation.validate_eq_ok_iff m.next).mpr (by rw [hleads.changed]; rfl)
    have hv : op.validate m = .ok typed :=
      validate_eq_ok_iff.mpr ⟨htyped, b, hleads.resolved, hvalid⟩
    obtain ⟨summary, ha⟩ := Operation.apply_ok_iff_leads.mpr ⟨b, c, k, hleads⟩
    simp [hv, ha, Except.map]

theorem RawOperation.step_iff_change {op : RawOperation} {typed : Operation} {m m' : Model}
    {b : Blueprint} (htyped : op.typed? = some typed)
    (hb : m.resolve? typed.header.blueprint = some b) :
    op.step m = .ok m' ↔
      ∃ c k, typed.change m.next b = some (c, k) ∧ m' = (m.update c).draw k := by
  rw [step_eq_ok_iff]
  constructor
  · rintro ⟨typed', b', c, k, htyped', hleads⟩
    obtain rfl := Option.some.inj (htyped.symm.trans htyped')
    obtain rfl := Option.some.inj (hb.symm.trans hleads.resolved)
    exact ⟨c, k, hleads.changed, hleads.result⟩
  · rintro ⟨c, k, hchange, hm⟩
    exact ⟨typed, b, c, k, htyped, hb, hchange, hm⟩

/-- What every operation keeps is kept by a patch. -/
theorem runInTurn_induction {P : Model → Prop}
    (hstep : ∀ {op : Operation} {m m' : Model} {b c : Blueprint} {k : Nat},
      P m → op.Leads m m' b c k → P m')
    {ops : List RawOperation} {m m' : Model} (hP : P m) (h : runInTurn ops m = .ok m') : P m' := by
  induction ops generalizing m with
  | nil =>
    obtain rfl := Except.ok.inj h
    exact hP
  | cons op ops ih =>
    obtain ⟨next, hnext, hrest⟩ := runInTurn_cons_eq_ok_iff.mp h
    obtain ⟨typed, b, c, k, -, hleads⟩ := RawOperation.step_eq_ok_iff.mp hnext
    exact ih (hstep hP hleads) hrest

theorem next_le_runInTurn {ops : List RawOperation} {m m' : Model}
    (h : runInTurn ops m = .ok m') : m.next ≤ m'.next := by
  refine runInTurn_induction (P := (m.next ≤ ·.next)) ?_ (Nat.le_refl _) h
  intro op m₁ m₂ b c k hle hleads
  rw [hleads.result]
  exact Nat.le_trans hle (Nat.le_add_right _ k)

/-- A patch leads to the model to which its operations lead, or it leaves the blueprints as they
are; ids are never given back. -/
theorem Engine.model_apply {σ : Type} (sink : Sink σ) (text : Json) (e : Engine) (s : σ)
    (hsink : ∀ report told s, (sink report told s).1.model = told.model) :
    runInTurn (Document.ofValue text).operations e.model = .ok (e.apply sink text s).1.model ∨
      (e.apply sink text s).1.model.loaded = e.model.loaded ∧
        e.model.next ≤ (e.apply sink text s).1.model.next := by
  have hcourse := course sink s text e
  generalize e.apply sink text s = result at hcourse
  cases hcourse with
  | busy hbusy => exact .inr ⟨rfl, Nat.le_refl _⟩
  | empty hidle h => exact .inr ⟨rfl, Nat.le_refl _⟩
  | opened hidle ho hne => exact .inr ⟨rfl, Nat.le_refl _⟩
  | completed hidle hclosed hne h =>
    rw [model_finish, hsink]
    exact .inl h
  | @refused _ _ _ _ _ m r hops h hr =>
    rw [model_finish, hsink]
    exact .inr ⟨rfl, (next_le_runInTurn h : e.model.next ≤ m.next)⟩

end BlueprintPatch

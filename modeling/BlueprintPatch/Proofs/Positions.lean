import BlueprintPatch.Proofs.Distinctness
import BlueprintPatch.Proofs.DryRun
import BlueprintPatch.Proofs.Records

/-! Where nodes stand. A position that is no pair of numbers counts as the origin, and for the rest of
an addition it is of no matter what the position is. But a pair of numbers is taken as it is: an
integer that is too large for a coordinate makes the addition invalid, and an infinite number, or the
one that is none, becomes a coordinate. No other operation moves a node. -/
namespace BlueprintPatch

namespace Json

/-- The number that a coordinate is read as. An integer may be too large for one. -/
def coordinate? : Json → Option Binary64
  | .int n => Binary64.ofInt? n
  | .float x => some x
  | _ => none

/-- The two coordinates of a position, if both are numbers. -/
def coordinates? : Json → Option (Json × Json)
  | .obj fields =>
    match Fields.get? "x" fields, Fields.get? "y" fields with
    | some x, some y => if isNumber x && isNumber y then some (x, y) else none
    | _, _ => none
  | _ => none

/-- The position with these coordinates, if both are numbers and none is too large. -/
def position? (v : Json) : Option Position := do
  let (x, y) ← v.coordinates?
  let x ← x.coordinate?
  let y ← y.coordinate?
  some ⟨x, y⟩

/-- Both coordinates are numbers, and one of them is too large. -/
def IsOversized (v : Json) : Prop := v.coordinates?.isSome = true ∧ v.position? = none

def position (v : Json) : Position := v.position?.getD .origin

end Json

def Position.isFinite (p : Position) : Bool := p.x.isFinite && p.y.isFinite

/-- The position that is meant: the origin, unless both coordinates are finite. -/
def Json.finitePosition (v : Json) : Position := (v.position?.filter Position.isFinite).getD .origin

theorem Json.position_eq_finitePosition_iff (v : Json) :
    v.position = v.finitePosition ↔ v.position.isFinite = true := by
  unfold position finitePosition
  cases v.position? with
  | none => exact iff_of_true rfl (by decide)
  | some p =>
    by_cases hfinite : p.isFinite = true
    · exact iff_of_true (by simp [Option.filter, hfinite]) hfinite
    · refine iff_of_false (fun h => hfinite ?_) hfinite
      have horigin : p = .origin := by simpa [Option.filter, hfinite] using h
      rw [horigin]
      decide

theorem Rule.number_of_isNumber {v : Json} (h : isNumber v = true) :
    number v = match v.coordinate? with
      | some x => .ok x
      | none => .fail .floatType := by
  cases v with
  | int n => rfl
  | float x => rfl
  | _ => cases h

theorem positionRule_eq (v : Json) :
    positionRule v = match v.coordinates? with
      | some (x, y) => Position.mk <$> (Rule.number x).within "x" <*> (Rule.number y).within "y"
      | none => .ok .origin := by
  cases v with
  | obj fields =>
    simp only [positionRule, Json.coordinates?]
    cases Fields.get? "x" fields with
    | none => rfl
    | some x =>
      cases Fields.get? "y" fields with
      | none => rfl
      | some y => by_cases h : (isNumber x && isNumber y) = true <;> simp [h]
  | _ => rfl

theorem Json.isNumber_of_coordinates? {v x y : Json} (h : v.coordinates? = some (x, y)) :
    isNumber x = true ∧ isNumber y = true := by
  cases v with
  | obj fields =>
    simp only [coordinates?] at h
    split at h
    · obtain ⟨hnumbers, heq⟩ := Option.ite_none_right_eq_some.mp h
      obtain ⟨rfl, rfl⟩ := Prod.mk.inj (Option.some.inj heq)
      simpa using hnumbers
    · cases h
  | _ => cases h

theorem positionRule_cases (v : Json) :
    ¬ v.IsOversized ∧ positionRule v = .ok v.position ∨
      v.IsOversized ∧ ∃ e es, positionRule v = .errors (e :: es) := by
  unfold Json.IsOversized Json.position Json.position?
  rw [positionRule_eq]
  cases hv : v.coordinates? with
  | none => exact .inl ⟨by simp, rfl⟩
  | some c =>
    obtain ⟨x, y⟩ := c
    obtain ⟨hx, hy⟩ := Json.isNumber_of_coordinates? hv
    simp only [Rule.number_of_isNumber hx, Rule.number_of_isNumber hy]
    cases hcx : x.coordinate? <;> cases hcy : y.coordinate? <;>
      simp [hcx, hcy, Checked.fail, Checked.within, Functor.map, Checked.map, Seq.seq, Checked.seq]

namespace Fields

/-- The fields differ in the one of the name at most. -/
structure SameBut (name : String) (f g : Fields) : Prop where
  get? : ∀ other, other ≠ name → f.get? other = g.get? other
  others : ∀ names : List String, name ∈ names →
    f.filter (·.1 ∉ names) = g.filter (·.1 ∉ names)

theorem sameBut_put (name : String) (v : Json) (fields : Fields) :
    (fields.put name v).SameBut name fields := by
  refine ⟨fun other h => get?_put_of_ne h v fields, fun names h => ?_⟩
  induction fields with
  | nil => simp [put, h]
  | cons p rest ih =>
    obtain ⟨n, w⟩ := p
    by_cases hn : n = name
    · subst hn
      simp [put, h]
    · simp only [put, hn, if_false, List.filter_cons, ih]

theorem sameBut_erase (name : String) (fields : Fields) :
    (fields.erase name).SameBut name fields := by
  refine ⟨fun other h => ?_, fun names h => ?_⟩
  · induction fields with
    | nil => rfl
    | cons p rest ih =>
      obtain ⟨n, w⟩ := p
      by_cases hn : n = name
      · subst hn
        simpa [erase, get?_cons, h] using ih
      · simpa [erase, get?_cons, hn] using congrArg (fun o => if other = n then some w else o) ih
  · rw [erase, List.filter_filter]
    refine List.filter_congr fun p _ => ?_
    by_cases hp : p.1 = name <;> simp [hp, h]

@[simp] theorem get?_erase_self (name : String) (fields : Fields) :
    (fields.erase name).get? name = none := by
  rw [get?, List.lookup_eq_none_iff]
  intro p hp
  have hne : p.1 ≠ name := by simpa using (List.mem_filter.mp hp).2
  simpa using hne.symm

end Fields

variable {f g : Fields} {name : String}

theorem Fields.SameBut.need {α : Type} (k : f.SameBut name g) {other : String} (h : other ≠ name)
    (rule : Rule α) : f.need other rule = g.need other rule := by
  rw [Fields.need, Fields.need, k.get? other h]

theorem Fields.SameBut.take {α : Type} (k : f.SameBut name g) {other : String} (h : other ≠ name)
    (default : α) (rule : Rule α) : f.take other default rule = g.take other default rule := by
  rw [Fields.take, Fields.take, k.get? other h]

theorem checkHeader_congr (k : f.SameBut name g) (hname : name ∉ headerFields)
    {declared : List String} (hdeclared : name ∈ declared) :
    checkHeader declared f = checkHeader declared g := by
  have hne : ∀ field ∈ headerFields, field ≠ name := fun _ hfield he => hname (he ▸ hfield)
  rw [checkHeader, checkHeader, k.others _ (List.mem_append_right headerFields hdeclared),
    k.need (hne "type" (by decide)), k.need (hne "blueprint" (by decide)),
    k.take (hne "description" (by decide))]

/-- All of the check but for the position. -/
def NodeAdd.checkRest (fields : Fields) : Checked (Position → NodeAdd) :=
  NodeAdd.mk
    <$> checkHeader ["node_type", "graph", "variable_name", "function_name", "position"] fields
    <*> fields.need "node_type" Rule.nonemptyText
    <*> fields.take "graph" defaultGraph graphRule
    <*> fields.take "variable_name" none (Rule.optional Rule.text)
    <*> fields.take "function_name" none (Rule.optional Rule.text)

theorem NodeAdd.check_eq (fields : Fields) :
    check fields = checkRest fields <*> fields.take "position" .origin positionRule := rfl

theorem NodeAdd.checkRest_congr (k : f.SameBut "position" g) : checkRest f = checkRest g := by
  rw [checkRest, checkRest, checkHeader_congr k (by decide) (by decide),
    k.need (by decide : "node_type" ≠ _), k.take (by decide : "graph" ≠ _),
    k.take (by decide : "variable_name" ≠ _), k.take (by decide : "function_name" ≠ _)]

theorem NodeAdd.eq_of_checkRest {fields : Fields} {make : Position → NodeAdd}
    (h : checkRest fields = .ok make) (p q : Position) : make p = { make q with position := p } := by
  obtain ⟨f₁, function, h₁, -, rfl⟩ := Checked.seq_eq_ok h
  obtain ⟨f₂, var, h₂, -, rfl⟩ := Checked.seq_eq_ok h₁
  obtain ⟨f₃, graph, h₃, -, rfl⟩ := Checked.seq_eq_ok h₂
  obtain ⟨f₄, type, h₄, -, rfl⟩ := Checked.seq_eq_ok h₃
  obtain ⟨header, -, rfl⟩ := Checked.map_eq_ok h₄
  rfl

theorem NodeAdd.check_put {v : Json} (hv : ¬ v.IsOversized) (fields : Fields) :
    check (fields.put "position" v) =
      (fun a => { a with position := v.position }) <$> check (fields.erase "position") := by
  have hrule : positionRule v = .ok v.position :=
    (positionRule_cases v).elim (·.2) fun h => absurd h.1 hv
  rw [check_eq, check_eq, checkRest_congr (Fields.sameBut_put "position" v fields),
    checkRest_congr (Fields.sameBut_erase "position" fields)]
  simp only [Fields.take, Fields.get?_put_self, Fields.get?_erase_self, hrule, Checked.within]
  cases hrest : checkRest fields with
  | errors es => rfl
  | ok make => exact congrArg Checked.ok (eq_of_checkRest hrest _ _)

theorem NodeAdd.check_put_oversized {v : Json} (hv : v.IsOversized) (fields : Fields) :
    ∃ es, check (fields.put "position" v) = .errors es ∧
      ∀ a, check (fields.erase "position") = .ok a →
        (Rejection.mk .nodeAdd es).firstField = "position" := by
  obtain ⟨e, es, hrule⟩ : ∃ e es, positionRule v = .errors (e :: es) :=
    (positionRule_cases v).elim (fun h => absurd hv h.1) (·.2)
  rw [check_eq, check_eq, checkRest_congr (Fields.sameBut_put "position" v fields),
    checkRest_congr (Fields.sameBut_erase "position" fields)]
  simp only [Fields.take, Fields.get?_put_self, Fields.get?_erase_self, hrule, Checked.within]
  cases checkRest fields with
  | errors more =>
    refine ⟨_, rfl, fun a ha => ?_⟩
    cases ha
  | ok make => exact ⟨_, rfl, fun _ _ => rfl⟩

/-- The same operation with another position. -/
def Operation.movedTo (p : Position) : Operation → Operation
  | .nodeAdd a => .nodeAdd { a with position := p }
  | op => op

/-- What becomes of an addition after its check, in the blueprint that it names. -/
def NodeAdd.accept (b : Blueprint) : Checked NodeAdd → Except Refusal Operation
  | .errors es => .error (.fieldInvalid .nodeAdd (Rejection.mk .nodeAdd es).firstField)
  | .ok a => (a.validate b).map fun _ => .nodeAdd a

theorem NodeAdd.accept_map (p : Position) (b : Blueprint) (c : Checked NodeAdd) :
    accept b ((fun a => { a with position := p }) <$> c) = (accept b c).map (Operation.movedTo p) := by
  cases c with
  | errors es => rfl
  | ok a =>
    have hsame : NodeAdd.validate b { a with position := p } = a.validate b := rfl
    simp only [Checked.map_ok, accept, hsame]
    cases a.validate b <;> rfl

namespace RawOperation

def lookUp (m : Model) (op : RawOperation) : Except Refusal Blueprint :=
  match op.blueprint? with
  | none => .error .blueprintMissing
  | some id =>
    match op.target? m with
    | none => .error (.blueprintNotFound id)
    | some b => .ok b

theorem validate_nodeAdd {op : RawOperation} (hkind : op.kind? = some .nodeAdd) (m : Model) :
    op.validate m = op.lookUp m >>= fun b => NodeAdd.accept b (NodeAdd.check op.fields) := by
  obtain ⟨type, htype, -⟩ := Option.bind_eq_some_iff.mp hkind
  have himpl : OperationKind.nodeAdd.isImplemented = true := rfl
  unfold validate lookUp
  rw [htype, hkind]
  cases op.blueprint? with
  | none => rfl
  | some id =>
    simp only [himpl, not_true_eq_false, if_false, Operation.check]
    cases op.target? m with
    | none => rfl
    | some b => cases NodeAdd.check op.fields <;> rfl

def withPosition (v : Json) (op : RawOperation) : RawOperation :=
  { op with fields := op.fields.put "position" v }

def withoutPosition (op : RawOperation) : RawOperation :=
  { op with fields := op.fields.erase "position" }

variable {op other : RawOperation} {v : Json}

theorem textField?_congr (k : op.fields.SameBut name other.fields) {field : String}
    (h : field ≠ name) : op.textField? field = other.textField? field := by
  rw [textField?, textField?, k.get? field h]

theorem kind?_congr (k : op.fields.SameBut "position" other.fields) : op.kind? = other.kind? :=
  congrArg (Option.bind · OperationKind.ofName?) (textField?_congr k (by decide))

theorem lookUp_congr (k : op.fields.SameBut "position" other.fields) (m : Model) :
    op.lookUp m = other.lookUp m := by
  rw [lookUp, lookUp, blueprint?, blueprint?, textField?_congr k (by decide), target?, target?,
    k.get? "blueprint" (by decide)]

theorem validate_of_sameBut (hkind : op.kind? = some .nodeAdd)
    (k : other.fields.SameBut "position" op.fields) (m : Model) :
    other.validate m =
      op.lookUp m >>= fun b => NodeAdd.accept b (NodeAdd.check other.fields) := by
  rw [validate_nodeAdd ((kind?_congr k).trans hkind), lookUp_congr k]

/-- With a position that is not oversized an addition is refused for the reason for which it is
refused without one, or valid with the same record but for the position. -/
theorem validate_withPosition (hkind : op.kind? = some .nodeAdd) (hv : ¬ v.IsOversized)
    (m : Model) :
    (op.withPosition v).validate m =
      (op.withoutPosition.validate m).map (Operation.movedTo v.position) := by
  rw [validate_of_sameBut hkind (Fields.sameBut_put "position" v op.fields),
    validate_of_sameBut hkind (Fields.sameBut_erase "position" op.fields)]
  cases op.lookUp m with
  | error r => rfl
  | ok b =>
    have hcheck := congrArg (NodeAdd.accept b) (NodeAdd.check_put hv op.fields)
    exact hcheck.trans (NodeAdd.accept_map v.position b _)

/-- With an oversized position an addition is invalid, and the position is to blame if it is valid
without one. -/
theorem validate_oversized (hkind : op.kind? = some .nodeAdd) (hv : v.IsOversized) (m : Model) :
    ∃ r, (op.withPosition v).validate m = .error r ∧
      ∀ typed, op.withoutPosition.validate m = .ok typed → r = .fieldInvalid .nodeAdd "position" := by
  rw [validate_of_sameBut hkind (Fields.sameBut_put "position" v op.fields),
    validate_of_sameBut hkind (Fields.sameBut_erase "position" op.fields)]
  cases op.lookUp m with
  | error r =>
    refine ⟨r, rfl, fun typed h => ?_⟩
    cases h
  | ok b =>
    obtain ⟨es, hes, hfirst⟩ := NodeAdd.check_put_oversized hv op.fields
    refine ⟨_, congrArg (NodeAdd.accept b) hes, fun typed h => ?_⟩
    cases hbare : NodeAdd.check (op.fields.erase "position") with
    | errors es => simp [withoutPosition, hbare, NodeAdd.accept, bind, Except.bind] at h
    | ok a => rw [hfirst a hbare]

end RawOperation

def Node.position (x : Node) : Position := ⟨x.posX, x.posY⟩

def Blueprint.positions (b : Blueprint) : List Position := b.allNodes.map Node.position

theorem Blueprint.hasFinitePositions_iff {b : Blueprint} :
    b.HasFinitePositions ↔ ∀ p ∈ b.positions, p.isFinite = true := by
  simp only [HasFinitePositions, positions, allNodes, List.forall_mem_map, List.forall_mem_flatMap,
    Position.isFinite, Node.position, Bool.and_eq_true]

theorem NodeAdd.position_node (a : NodeAdd) (t : NodeKind × String) (n : Nat) (b : Blueprint) :
    (a.node t n b).position = a.position := by
  rw [node, Blueprint.newNode_eq]
  rfl

/-- The second model has one node more, in one blueprint; all others are as they were. -/
def Model.Gains (m m' : Model) (x : Node) : Prop :=
  ∃ b c, b ∈ m.loaded ∧ c.allNodes.Perm (b.allNodes ++ [x]) ∧
    m'.loaded = m.loaded.map (Model.supplant c)

theorem RawOperation.step_of_validate {op : RawOperation} {m : Model} {a : NodeAdd}
    (h : op.validate m = .ok (.nodeAdd a)) :
    ∃ m' x, op.step m = .ok m' ∧ m.Gains m' x ∧ x.position = a.position := by
  obtain ⟨htyped, b, hb, hvalid⟩ := validate_eq_ok_iff.mp h
  obtain ⟨⟨c, k⟩, hchange⟩ :=
    Option.isSome_iff_exists.mp ((Operation.validate_eq_ok_iff m.next).mp hvalid)
  have hstep := (step_iff_change htyped hb).mpr ⟨c, k, hchange, rfl⟩
  rcases Operation.change_cases hchange with
    ⟨r, hop, -⟩ | ⟨a', t, hop, hgraph, -, rfl, -⟩ | ⟨d, left, hop, -⟩
  · cases hop
  · obtain rfl := Operation.nodeAdd.inj hop
    exact ⟨_, _, hstep, ⟨b, _, Model.mem_of_resolve? hb, perm_allNodes_add a _ hgraph, rfl⟩,
      a.position_node t m.next b⟩
  · cases hop

/-- An addition puts one node at its position; no other operation puts a node anywhere. -/
theorem positions_change {op : Operation} {n k : Nat} {b c : Blueprint}
    (h : op.change n b = some (c, k)) :
    (∃ a, op = .nodeAdd a ∧ c.positions.Perm (a.position :: b.positions)) ∨
      (∀ a, op ≠ .nodeAdd a) ∧ c.positions ⊆ b.positions := by
  rcases Operation.change_cases h with
    ⟨r, rfl, -, rfl, -⟩ | ⟨a, t, rfl, hgraph, -, rfl, -⟩ | ⟨d, left, rfl, hleft, rfl, -⟩
  · have hsame : (r.rename n b).positions = b.positions :=
      map_rewireGraphs (fun _ _ _ => rfl) _ _ _ n b.graphs
    exact .inr ⟨fun a => by simp, hsame ▸ List.Subset.refl _⟩
  · have hpositions := (perm_allNodes_add a (a.node t n b) hgraph).map Node.position
    rw [List.map_append, List.map_singleton, a.position_node] at hpositions
    exact .inl ⟨a, rfl, hpositions.trans List.perm_append_comm⟩
  · obtain ⟨x, rest, hnodes, hrest⟩ := allNodes_removeNode? hleft
    have hsame : left.markModified.positions = rest.map Node.position := hrest _ fun _ _ => rfl
    refine .inr ⟨fun a => by simp, ?_⟩
    rw [hsame]
    exact fun p hp => (hnodes.map Node.position).mem_iff.mpr (List.mem_cons_of_mem _ hp)

/-- If all positions of a blueprint are finite, they are still afterwards unless the operation adds
a node whose position is not. -/
theorem hasFinitePositions_change_iff {op : Operation} {n k : Nat} {b c : Blueprint}
    (hb : b.HasFinitePositions) (h : op.change n b = some (c, k)) :
    c.HasFinitePositions ↔ ∀ a, op = .nodeAdd a → a.position.isFinite = true := by
  rw [Blueprint.hasFinitePositions_iff] at hb ⊢
  rcases positions_change h with ⟨a, rfl, hpositions⟩ | ⟨hop, hpositions⟩
  · constructor
    · intro hc a' ha'
      obtain rfl := Operation.nodeAdd.inj ha'
      exact hc _ (hpositions.mem_iff.mpr List.mem_cons_self)
    · intro ha p hp
      rcases List.mem_cons.mp (hpositions.mem_iff.mp hp) with rfl | hold
      · exact ha a rfl
      · exact hb p hold
  · exact iff_of_true (fun p hp => hb p (hpositions hp)) fun a ha => absurd ha (hop a)

/-- All nodes of all blueprints have finite positions. -/
def AllFinite (s : Snapshot) : Prop := ∀ b ∈ s, b.HasFinitePositions

theorem allFinite_leads_iff {op : Operation} {m m' : Model} {b c : Blueprint} {k : Nat}
    (hm : AllFinite m.loaded) (h : op.Leads m m' b c k) :
    AllFinite m'.loaded ↔ ∀ a, op = .nodeAdd a → a.position.isFinite = true := by
  have hb := Model.mem_of_resolve? h.resolved
  have hhandle := (Operation.sameIdentity_of_change h.changed).handle
  rw [h.result, ← hasFinitePositions_change_iff (hm b hb) h.changed]
  constructor
  · intro hall
    exact hall c (Model.mem_loaded_update hb hhandle.symm)
  · intro hc
    exact Model.forall_loaded_update hc hm

namespace RawOperation

/-- The position that the fields of an addition give. -/
def position (op : RawOperation) : Position :=
  ((op.fields.get? "position").map Json.position).getD .origin

/-- The operation is no addition, or one with a finite position. -/
def StandsFinitely (op : RawOperation) : Prop :=
  op.kind? = some .nodeAdd → op.position.isFinite = true

variable {op : RawOperation}

theorem position_withPosition {v : Json} : (op.withPosition v).position = v.position := by
  rw [position, withPosition, Fields.get?_put_self]
  rfl

theorem position_of_check {a : NodeAdd} (h : NodeAdd.check op.fields = .ok a) :
    a.position = op.position := by
  obtain ⟨make, p, hmake, hp, rfl⟩ := Checked.seq_eq_ok (NodeAdd.check_eq op.fields ▸ h)
  have hmade : (make p).position = p :=
    congrArg NodeAdd.position (NodeAdd.eq_of_checkRest hmake p p)
  rw [hmade, position]
  unfold Fields.take at hp
  cases hv : op.fields.get? "position" with
  | none => simpa [hv] using hp.symm
  | some v =>
    rcases positionRule_cases v with ⟨-, hrule⟩ | ⟨-, e, es, hrule⟩
    · simpa [hv, hrule, Checked.within] using hp.symm
    · simp [hv, hrule, Checked.within] at hp

theorem eq_nodeAdd_of_typed? {typed : Operation} (h : op.typed? = some typed) :
    (op.kind? = some .nodeAdd → ∃ a, typed = .nodeAdd a) ∧
      ∀ a, typed = .nodeAdd a → op.kind? = some .nodeAdd ∧ a.position = op.position := by
  obtain ⟨_, kind, -, -, hkind, -, hcheck⟩ := typed?_eq_some h
  have htyped : typed.kind = kind := (Operation.check_eq_ok hcheck).1
  rw [hkind]
  constructor
  · rintro ⟨⟩
    obtain ⟨a, -, ha⟩ := Checked.map_eq_ok hcheck
    exact ⟨a, ha.symm⟩
  · rintro a rfl
    obtain rfl : OperationKind.nodeAdd = kind := htyped
    obtain ⟨a', ha', heq⟩ := Checked.map_eq_ok hcheck
    obtain rfl := Operation.nodeAdd.inj heq
    exact ⟨rfl, position_of_check ha'⟩

end RawOperation

theorem allFinite_step_iff {op : RawOperation} {m m' : Model} (hm : AllFinite m.loaded)
    (h : op.step m = .ok m') : AllFinite m'.loaded ↔ op.StandsFinitely := by
  obtain ⟨typed, b, c, k, htyped, hleads⟩ := RawOperation.step_eq_ok_iff.mp h
  obtain ⟨hadds, hadd⟩ := RawOperation.eq_nodeAdd_of_typed? htyped
  rw [allFinite_leads_iff hm hleads]
  constructor
  · intro hfinite hkind
    obtain ⟨a, rfl⟩ := hadds hkind
    exact (hadd a rfl).2 ▸ hfinite a rfl
  · rintro hstands a rfl
    obtain ⟨hkind, hposition⟩ := hadd a rfl
    exact hposition ▸ hstands hkind

theorem allFinite_runInTurn {ops : List RawOperation} {m m' : Model}
    (hops : ∀ op ∈ ops, op.StandsFinitely) (hm : AllFinite m.loaded)
    (h : runInTurn ops m = .ok m') : AllFinite m'.loaded := by
  induction ops generalizing m with
  | nil =>
    obtain rfl := Except.ok.inj h
    exact hm
  | cons op ops ih =>
    obtain ⟨next, hnext, hrest⟩ := runInTurn_cons_eq_ok_iff.mp h
    rw [List.forall_mem_cons] at hops
    exact ih hops.2 ((allFinite_step_iff hm hnext).mpr hops.1) hrest

/-- What is not committed leads to a state that the engine had. -/
theorem Change.loaded_mem_states {e e' : Engine} {x : Effect} (h : Change e e' x)
    (hx : x ≠ .committed) : e'.model.loaded ∈ e.states := by
  cases h with
  | committed => exact absurd rfl hx
  | undone y rest hdone hmodel =>
    rw [hmodel]
    exact mem_states.mpr (.inr ⟨y, .inl (by simp [hdone]), .inl rfl⟩)
  | redone y rest hundone hmodel =>
    rw [hmodel]
    exact mem_states.mpr (.inr ⟨y, .inr (by simp [hundone]), .inr rfl⟩)
  | kept hloaded => exact mem_states.mpr (.inl hloaded)

namespace EngineRequest

theorem effect_ne_committed {r : EngineRequest} (h : ∀ text, r ≠ .apply text)
    (y : EngineResponse) : r.effect y ≠ .committed := by
  unfold effect
  split
  · exact absurd rfl (h _)
  all_goals simp

/-- The operations of a patch stand finitely; other requests have none. -/
def StandsFinitely (r : EngineRequest) : Prop :=
  ∀ text, r = .apply text → ∀ op ∈ (Document.ofValue text).operations, op.StandsFinitely

variable {σ : Type} {sink : Sink σ} {e : Engine}

theorem allFinite_serve (hsink : Discreet sink) (he : e.AtRest) (s : σ) {r : EngineRequest}
    (hr : r.StandsFinitely) (h : ∀ t ∈ e.states, AllFinite t) :
    ∀ t ∈ (r.serve sink e s).1.states, AllFinite t := by
  have hchange := (served hsink he s r).change
  intro t ht
  rcases Engine.Settled.states_subset hchange ht with rfl | hold
  · by_cases hpatch : ∃ text, r = .apply text
    · obtain ⟨text, rfl⟩ := hpatch
      have hnow := h _ (mem_states.mpr (.inl rfl))
      rcases Engine.model_apply sink text e s hsink.model with hrun | ⟨hsame, -⟩
      · exact allFinite_runInTurn (hr text rfl) hnow hrun
      · exact hsame.symm ▸ hnow
    · exact h _ (hchange.loaded_mem_states (effect_ne_committed (not_exists.mp hpatch) _))
  · exact h t hold

theorem allFinite_serveAll (hsink : Discreet sink) (calls : List EngineRequest) (he : e.AtRest)
    (s : σ) (hcalls : ∀ r ∈ calls, r.StandsFinitely) (h : ∀ t ∈ e.states, AllFinite t) :
    ∀ t ∈ (serveAll sink calls e s).1.states, AllFinite t := by
  induction calls generalizing e s with
  | nil => exact h
  | cons r rest ih =>
    rw [List.forall_mem_cons] at hcalls
    exact ih (served hsink he s r).atRest _ hcalls.2 (allFinite_serve hsink he s hcalls.1 h)

end EngineRequest

theorem RawOperation.creates {op : RawOperation} {m : Model} {typed : Operation}
    (hkind : op.kind? = some .nodeAdd) (h : op.validate m = .ok typed) :
    ∃ m' x, op.step m = .ok m' ∧ m.Gains m' x ∧ x.position = op.position := by
  obtain ⟨hadds, hadd⟩ := eq_nodeAdd_of_typed? (validate_eq_ok_iff.mp h).1
  obtain ⟨a, rfl⟩ := hadds hkind
  obtain ⟨m', x, hstep, hgains, hposition⟩ := step_of_validate h
  exact ⟨m', x, hstep, hgains, hposition.trans (hadd a rfl).2⟩

/-- An addition with a position is valid if and only if it is valid without one and the position is
not oversized. The new node has the position that is meant exactly if its position is finite, that is,
unless one of two numbers is infinite or none. So all positions stay finite as long as no addition
gives such a number, after any patches, undoing and redoing; and the first addition that does leaves
a position that is not. -/
theorem positions_exact (m : Model) :
    (∀ (op : RawOperation) (v : Json), op.kind? = some .nodeAdd →
      ((∃ typed, (op.withPosition v).validate m = .ok typed) ↔
        (∃ typed, op.withoutPosition.validate m = .ok typed) ∧ ¬ v.IsOversized) ∧
      (∀ typed, op.withoutPosition.validate m = .ok typed → v.IsOversized →
        (op.withPosition v).validate m = .error (.fieldInvalid .nodeAdd "position")) ∧
      ∀ typed, (op.withPosition v).validate m = .ok typed →
        ∃ m' x, (op.withPosition v).step m = .ok m' ∧ m.Gains m' x ∧ x.position = v.position ∧
          (x.position = v.finitePosition ↔ x.position.isFinite = true)) ∧
    (∀ (op : RawOperation) (m' : Model), AllFinite m.loaded → op.step m = .ok m' →
      (AllFinite m'.loaded ↔ op.StandsFinitely)) ∧
    ∀ (σ : Type) (sink : Sink σ) (calls : List EngineRequest) (e : Engine) (s : σ),
      Discreet sink → e.AtRest → e.model = m → (∀ t ∈ e.states, AllFinite t) →
      (∀ r ∈ calls, r.StandsFinitely) →
      ∀ t ∈ (serveAll sink calls e s).1.states, AllFinite t := by
  refine ⟨fun op v hkind => ?_, fun op m' => allFinite_step_iff, ?_⟩
  · have hkind' : (op.withPosition v).kind? = some .nodeAdd :=
      (RawOperation.kind?_congr (Fields.sameBut_put "position" v op.fields)).trans hkind
    refine ⟨?_, fun typed h hv => ?_, fun typed h => ?_⟩
    · by_cases hv : v.IsOversized
      · obtain ⟨r, hr, -⟩ := RawOperation.validate_oversized hkind hv m
        exact iff_of_false (by simp [hr]) fun h => h.2 hv
      · rw [RawOperation.validate_withPosition hkind hv m]
        cases op.withoutPosition.validate m <;> simp [Except.map, hv]
    · obtain ⟨r, hr, hblame⟩ := RawOperation.validate_oversized hkind hv m
      exact hblame typed h ▸ hr
    · obtain ⟨m', x, hstep, hgains, hposition⟩ := RawOperation.creates hkind' h
      rw [RawOperation.position_withPosition] at hposition
      exact ⟨m', x, hstep, hgains, hposition, hposition ▸ v.position_eq_finitePosition_iff⟩
  · intro σ sink calls e s hsink he _ hstates hcalls
    exact EngineRequest.allFinite_serveAll hsink calls he s hcalls hstates

theorem allFinite_lampEngine : ∀ t ∈ lampEngine.states, AllFinite t := by
  intro t ht b hb
  obtain rfl := List.mem_singleton.mp ht
  obtain rfl := List.mem_singleton.mp hb
  exact Blueprint.hasFinitePositions_iff.mpr (by decide)

def threeAndHalf : Json := .obj [("x", .int 3), ("y", .float ⟨0x3FE0000000000000⟩)]

def farAway : Json := .obj [("x", .int (10 ^ 309)), ("y", .int 0)]

theorem isOversized_farAway : farAway.IsOversized := ⟨rfl, by decide +kernel⟩

theorem positions_exact_lamp :
    let at? (v : Json) := addGetLit.withPosition v
    addGetLit.kind? = some .nodeAdd ∧
    (at? farAway).validate lampEngine.model = .error (.fieldInvalid .nodeAdd "position") ∧
    (∃ m x, (at? threeAndHalf).step lampEngine.model = .ok m ∧
      lampEngine.model.Gains m x ∧ x.position = ⟨⟨0x4008000000000000⟩, ⟨0x3FE0000000000000⟩⟩ ∧
      AllFinite m.loaded) ∧
    ∀ t ∈ (serveAll silentSink [.apply replaceN, .undo, .redo] lampEngine ()).1.states,
      AllFinite t := by
  intro at?
  have hkind : addGetLit.kind? = some .nodeAdd := rfl
  obtain ⟨hread, hstep, hrun⟩ := positions_exact lampEngine.model
  obtain ⟨-, hoversized, -⟩ := hread addGetLit farAway hkind
  obtain ⟨-, -, hplaced⟩ := hread addGetLit threeAndHalf hkind
  obtain ⟨m, x, hm, hgains, hposition, -⟩ := hplaced _ rfl
  have hlamp := allFinite_lampEngine _ List.mem_cons_self
  refine ⟨hkind, hoversized _ rfl isOversized_farAway, ⟨m, x, hm, hgains, hposition, ?_⟩, ?_⟩
  · exact (hstep _ m hlamp hm).mpr fun _ => by decide
  · refine hrun Unit silentSink _ lampEngine () discreet_silentSink (Engine.atRest_new _ _ _) rfl
      allFinite_lampEngine ?_
    rintro r hr text rfl op hop
    obtain rfl : text = replaceN := by simpa using hr
    rw [ofValue_replaceN] at hop
    rcases List.mem_pair.mp hop with rfl | rfl
    · exact fun hkind => absurd hkind (by decide)
    · exact fun _ => by decide

/-- An integer that is too large is not tolerated, and an infinite number is. -/
theorem not_lenient_nor_finite :
    (¬ ∀ (m : Model) (op : RawOperation) (v : Json), op.kind? = some .nodeAdd →
      ((∃ typed, (op.withPosition v).validate m = .ok typed) ↔
        ∃ typed, op.withoutPosition.validate m = .ok typed)) ∧
    ¬ ∀ (op : RawOperation) (m m' : Model), AllFinite m.loaded → op.step m = .ok m' →
      AllFinite m'.loaded := by
  constructor
  · intro h
    obtain ⟨r, hr, -⟩ :=
      RawOperation.validate_oversized (rfl : addGetLit.kind? = _) isOversized_farAway
        lampEngine.model
    obtain ⟨typed, htyped⟩ := (h lampEngine.model addGetLit farAway rfl).mpr ⟨_, rfl⟩
    rw [hr] at htyped
    cases htyped
  · intro h
    let infinite : Json := .obj [("x", .float (.infinity false)), ("y", .int 0)]
    have hkind : (addGetLit.withPosition infinite).kind? = some .nodeAdd := rfl
    obtain ⟨m, x, hm, -⟩ := RawOperation.creates (m := lampEngine.model) hkind rfl
    have hlamp := allFinite_lampEngine _ List.mem_cons_self
    exact absurd ((allFinite_step_iff hlamp hm).mp (h _ _ m hlamp hm) hkind) (by decide)

end BlueprintPatch

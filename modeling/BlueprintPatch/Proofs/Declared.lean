import Mathlib.Data.List.Forall2
import BlueprintPatch.Proofs.Step

/-! What of a patch matters: of each operation its type, its blueprint and the fields that its kind
declares. Two patches that agree on these do the same to every engine, however else their texts
differ. -/
namespace BlueprintPatch

/-- Equal values: an object is what its names stand for, in any order, and an integer is equal to
the binary number that is exactly it. Of the two zeros each is equal to itself only. -/
inductive Json.Same : Json → Json → Prop
  | refl (v : Json) : Same v v
  | intFloat {n : Int} {x : Binary64} :
    Binary64.ofInt? n = some x → x.toInt? = some n → Same (.int n) (.float x)
  | floatInt {n : Int} {x : Binary64} :
    Binary64.ofInt? n = some x → x.toInt? = some n → Same (.float x) (.int n)
  | arr {vs ws : List Json} : List.Forall₂ Same vs ws → Same (.arr vs) (.arr ws)
  | obj {f g : Fields} :
    (∀ name, Option.Rel Same (f.get? name) (g.get? name)) → Same (.obj f) (.obj g)

theorem rel_cases {α β : Type} {R : α → β → Prop} {x : Option α} {y : Option β}
    (h : Option.Rel R x y) :
    x = none ∧ y = none ∨ ∃ a b, x = some a ∧ y = some b ∧ R a b := by
  cases h with
  | none => exact .inl ⟨rfl, rfl⟩
  | some h => exact .inr ⟨_, _, rfl, rfl, h⟩

/-- The rule does not tell equal values apart. -/
def Rule.Respects {α : Type} (rule : Rule α) : Prop := ∀ v w, v.Same w → rule v = rule w

theorem Rule.nonemptyText_respects : Rule.nonemptyText.Respects := by
  intro v w h
  cases h <;> rfl

theorem Rule.optional_text_respects : (Rule.optional Rule.text).Respects := by
  intro v w h
  cases h <;> rfl

theorem graphRule_respects : Rule.Respects graphRule := by
  intro v w h
  cases h <;> rfl

theorem isNumber_same {v w : Json} (h : v.Same w) : isNumber v = isNumber w := by
  cases h <;> rfl

/-- An integer and the binary number that is equal to it are the same coordinate. -/
theorem Rule.number_respects : Rule.number.Respects := by
  intro v w h
  cases h with
  | intFloat hx _ => simp only [number, hx]
  | floatInt hx _ => simp only [number, hx]
  | refl | arr | obj => rfl

theorem positionRule_respects : Rule.Respects positionRule := by
  intro v w h
  cases h with
  | refl | arr | intFloat | floatInt => rfl
  | @obj f g hsame =>
    simp only [positionRule]
    rcases rel_cases (hsame "x") with ⟨hf, hg⟩ | ⟨x, x', hf, hg, hx⟩
    · rw [hf, hg]
    · rcases rel_cases (hsame "y") with ⟨hf', hg'⟩ | ⟨y, y', hf', hg', hy⟩
      · rw [hf, hg, hf', hg']
      · simp only [hf, hg, hf', hg', isNumber_same hx, isNumber_same hy,
          Rule.number_respects _ _ hx, Rule.number_respects _ _ hy]

namespace Fields

variable {α : Type} {f g : Fields} {name : String} {rule : Rule α}

theorem need_same (hrule : rule.Respects) (h : Option.Rel Json.Same (f.get? name) (g.get? name)) :
    f.need name rule = g.need name rule := by
  unfold need
  rcases rel_cases h with ⟨hf, hg⟩ | ⟨v, w, hf, hg, hvw⟩
  · rw [hf, hg]
  · simp only [hf, hg, hrule v w hvw]

theorem take_same (hrule : rule.Respects) (default : α)
    (h : Option.Rel Json.Same (f.get? name) (g.get? name)) :
    f.take name default rule = g.take name default rule := by
  unfold take
  rcases rel_cases h with ⟨hf, hg⟩ | ⟨v, w, hf, hg, hvw⟩
  · rw [hf, hg]
  · simp only [hf, hg, hrule v w hvw]

/-- The description is one that no check complains about: absent, null or text. -/
def Described (f : Fields) : Prop :=
  f.get? "description" = none ∨ f.get? "description" = some .null ∨
    ∃ s, f.get? "description" = some (.str s)

theorem Described.take (h : f.Described) :
    ∃ d, f.take "description" none (Rule.optional Rule.text) = .ok d := by
  unfold Fields.take
  rcases h with h | h | ⟨s, h⟩
  · exact ⟨none, by rw [h]⟩
  · exact ⟨none, by rw [h]; rfl⟩
  · exact ⟨some s, by rw [h]; rfl⟩

/-- The fields agree on the type, the blueprint and the declared names, and neither description is
invalid. -/
structure Agree (declared : List String) (f g : Fields) : Prop where
  same : ∀ name ∈ "type" :: "blueprint" :: declared,
    Option.Rel Json.Same (f.get? name) (g.get? name)
  described : f.Described
  described' : g.Described

end Fields

namespace Checked

variable {α β γ δ : Type}

/-- The two checks have related values or the same errors. -/
inductive Rel (R : α → β → Prop) : Checked α → Checked β → Prop
  | ok {a : α} {b : β} : R a b → Rel R (ok a) (ok b)
  | errors (es : List FieldError) : Rel R (errors es) (errors es)

theorem Rel.of_eq {x y : Checked α} (h : x = y) : Rel Eq x y := by
  subst h
  cases x with
  | ok a => exact .ok rfl
  | errors es => exact .errors es

theorem Rel.map {R : α → β → Prop} {S : γ → δ → Prop} {f : α → γ} {g : β → δ} {x : Checked α}
    {y : Checked β} (hfg : ∀ a b, R a b → S (f a) (g b)) (h : Rel R x y) :
    Rel S (f <$> x) (g <$> y) := by
  cases h with
  | ok hab => exact .ok (hfg _ _ hab)
  | errors es => exact .errors es

theorem Rel.seq {R : α → β → Prop} {S : γ → δ → Prop} {f : Checked (α → γ)} {g : Checked (β → δ)}
    {x : Checked α} {y : Checked β} (hfg : Rel (fun f g => ∀ a b, R a b → S (f a) (g b)) f g)
    (h : Rel R x y) : Rel S (f <*> x) (g <*> y) := by
  cases hfg with
  | ok hfg =>
    cases h with
    | ok hab => exact .ok (hfg _ _ hab)
    | errors es => exact .errors es
  | errors es =>
    cases h with
    | ok hab => exact .errors es
    | errors more => exact .errors (es ++ more)

end Checked

/-- The fields that a kind declares, apart from those that every operation has. -/
def OperationKind.declared : OperationKind → List String
  | .variableRename => ["old_name", "new_name"]
  | .nodeAdd => ["node_type", "graph", "variable_name", "function_name", "position"]
  | .nodeDelete => ["node_id"]
  | _ => []

/-- The headers agree but for what nobody reads. -/
def Header.Alike (h other : Header) : Prop := h.type = other.type ∧ h.blueprint = other.blueprint

/-- The operations are the same but for what nobody reads. -/
inductive Operation.Alike : Operation → Operation → Prop
  | variableRename {h h' : Header} (old new : String) : h.Alike h' →
    Alike (.variableRename ⟨h, old, new⟩) (.variableRename ⟨h', old, new⟩)
  | nodeAdd {h h' : Header} (type graph : String) (var function : Option String) (p : Position) :
    h.Alike h' → Alike (.nodeAdd ⟨h, type, graph, var, function, p⟩)
      (.nodeAdd ⟨h', type, graph, var, function, p⟩)
  | nodeDelete {h h' : Header} (id : String) : h.Alike h' →
    Alike (.nodeDelete ⟨h, id⟩) (.nodeDelete ⟨h', id⟩)
  | unsupported {h h' : Header} (kind : OperationKind) : h.Alike h' →
    Alike (.unsupported kind h) (.unsupported kind h')

theorem Operation.Alike.validate {op other : Operation} (h : op.Alike other) (b : Blueprint) :
    op.validate b = other.validate b := by
  cases h <;> rfl

theorem Operation.Alike.apply {op other : Operation} (h : op.Alike other) (m : Model) :
    op.apply m = other.apply m := by
  cases h with
  | variableRename old new h => simp only [Operation.apply, VariableRename.apply, h.2]; rfl
  | nodeAdd type graph var function p h => simp only [Operation.apply, NodeAdd.apply, h.2]; rfl
  | nodeDelete id h => simp only [Operation.apply, NodeDelete.apply, h.2]
  | unsupported kind h => rfl

variable {f g : Fields}

theorem checkHeader_agree {declared : List String} (h : f.Agree declared g) (names : List String) :
    Checked.Rel Header.Alike (checkHeader names f) (checkHeader names g) := by
  obtain ⟨d, hd⟩ := h.described.take
  obtain ⟨d', hd'⟩ := h.described'.take
  have htype := Fields.need_same Rule.nonemptyText_respects (h.same "type" (by simp))
  have hblueprint := Fields.need_same Rule.nonemptyText_respects (h.same "blueprint" (by simp))
  unfold checkHeader
  rw [hd, hd']
  refine .seq (R := fun _ _ => True) (.seq (.map ?_ (.of_eq htype)) (.of_eq hblueprint)) (.ok trivial)
  rintro a _ rfl b _ rfl _ _ -
  exact ⟨rfl, rfl⟩

theorem VariableRename.check_agree (h : f.Agree OperationKind.variableRename.declared g) :
    Checked.Rel Operation.Alike (.variableRename <$> check f) (.variableRename <$> check g) := by
  have hold := Fields.need_same Rule.nonemptyText_respects (h.same "old_name" (by decide))
  have hnew := Fields.need_same Rule.nonemptyText_respects (h.same "new_name" (by decide))
  refine .map (R := fun a b => Operation.Alike (.variableRename a) (.variableRename b))
    (fun _ _ h => h) ?_
  refine .seq (.seq (.map ?_ (checkHeader_agree h _)) (.of_eq hold)) (.of_eq hnew)
  rintro a b hab old _ rfl new _ rfl
  exact .variableRename old new hab

theorem NodeAdd.check_agree (h : f.Agree OperationKind.nodeAdd.declared g) :
    Checked.Rel Operation.Alike (.nodeAdd <$> check f) (.nodeAdd <$> check g) := by
  have htype := Fields.need_same Rule.nonemptyText_respects (h.same "node_type" (by decide))
  have hgraph := Fields.take_same graphRule_respects defaultGraph (h.same "graph" (by decide))
  have hvar := Fields.take_same Rule.optional_text_respects none (h.same "variable_name" (by decide))
  have hfunction :=
    Fields.take_same Rule.optional_text_respects none (h.same "function_name" (by decide))
  have hposition := Fields.take_same positionRule_respects .origin (h.same "position" (by decide))
  refine .map (R := fun a b => Operation.Alike (.nodeAdd a) (.nodeAdd b)) (fun _ _ h => h) ?_
  refine .seq (.seq (.seq (.seq (.seq (.map ?_ (checkHeader_agree h _)) (.of_eq htype))
    (.of_eq hgraph)) (.of_eq hvar)) (.of_eq hfunction)) (.of_eq hposition)
  rintro a b hab type _ rfl graph _ rfl var _ rfl function _ rfl position _ rfl
  exact .nodeAdd type graph var function position hab

theorem NodeDelete.check_agree (h : f.Agree OperationKind.nodeDelete.declared g) :
    Checked.Rel Operation.Alike (.nodeDelete <$> check f) (.nodeDelete <$> check g) := by
  have hid := Fields.need_same Rule.nonemptyText_respects (h.same "node_id" (by decide))
  refine .map (R := fun a b => Operation.Alike (.nodeDelete a) (.nodeDelete b)) (fun _ _ h => h) ?_
  refine .seq (.map ?_ (checkHeader_agree h _)) (.of_eq hid)
  rintro a b hab id _ rfl
  exact .nodeDelete id hab

theorem Operation.check_agree {kind : OperationKind} (h : f.Agree kind.declared g) :
    Checked.Rel Alike (check kind f) (check kind g) := by
  cases kind with
  | variableRename => exact VariableRename.check_agree h
  | nodeAdd => exact NodeAdd.check_agree h
  | nodeDelete => exact NodeDelete.check_agree h
  | nodeModify => exact .map (fun _ _ => .unsupported _) (checkHeader_agree h [])
  | connectionAdd => exact .map (fun _ _ => .unsupported _) (checkHeader_agree h [])
  | connectionRemove => exact .map (fun _ _ => .unsupported _) (checkHeader_agree h [])

namespace RawOperation

/-- The operations agree on their type, their blueprint and the fields that their kind declares. -/
def Agrees (op other : RawOperation) : Prop :=
  op.fields.Agree (op.kind?.elim [] OperationKind.declared) other.fields

variable {op other : RawOperation}

theorem textField?_same {name : String}
    (h : Option.Rel Json.Same (op.fields.get? name) (other.fields.get? name)) :
    op.textField? name = other.textField? name := by
  unfold textField?
  rcases rel_cases h with ⟨hf, hg⟩ | ⟨v, w, hf, hg, hvw⟩
  · rw [hf, hg]
  · rw [hf, hg]
    cases hvw <;> rfl

theorem Agrees.type? (h : op.Agrees other) : op.type? = other.type? :=
  textField?_same (h.same "type" (by simp))

theorem Agrees.blueprint? (h : op.Agrees other) : op.blueprint? = other.blueprint? :=
  textField?_same (h.same "blueprint" (by simp))

theorem Agrees.target? (h : op.Agrees other) (m : Model) : op.target? m = other.target? m := by
  unfold RawOperation.target?
  rcases rel_cases (h.same "blueprint" (by simp)) with ⟨hf, hg⟩ | ⟨v, w, hf, hg, hvw⟩
  · rw [hf, hg]
  · rw [hf, hg]
    cases hvw <;> rfl

theorem Agrees.kind? (h : op.Agrees other) : op.kind? = other.kind? := by
  rw [RawOperation.kind?, RawOperation.kind?, h.type?]

/-- Operations that agree are both refused, and for the same reason, or both valid, with records
that are the same but for what nobody reads. -/
theorem Agrees.validate (h : op.Agrees other) (m : Model) :
    (∃ r, op.validate m = .error r ∧ other.validate m = .error r) ∨
      ∃ typed typed', op.validate m = .ok typed ∧ other.validate m = .ok typed' ∧
        typed.Alike typed' := by
  unfold RawOperation.validate
  rw [← h.type?, ← h.blueprint?, ← h.kind?, ← h.target? m]
  cases op.type? with
  | none => exact .inl ⟨_, rfl, rfl⟩
  | some type =>
    cases op.blueprint? with
    | none => exact .inl ⟨_, rfl, rfl⟩
    | some id =>
      cases hkind : op.kind? with
      | none => exact .inl ⟨_, rfl, rfl⟩
      | some kind =>
        by_cases himpl : ¬ kind.isImplemented = true
        · exact .inl ⟨.notImplemented kind, if_pos himpl, if_pos himpl⟩
        · simp only [if_neg himpl]
          cases op.target? m with
          | none => exact .inl ⟨_, rfl, rfl⟩
          | some b =>
            have hagree : op.fields.Agree kind.declared other.fields := by
              simpa [Agrees, hkind] using h
            have hcheck := Operation.check_agree hagree
            generalize Operation.check kind op.fields = x, Operation.check kind other.fields = y
              at hcheck
            cases hcheck with
            | errors es => exact .inl ⟨_, rfl, rfl⟩
            | @ok typed typed' hab =>
              simp only [Checked.about, hab.validate b]
              cases typed'.validate b with
              | error r => exact .inl ⟨r, rfl, rfl⟩
              | ok => exact .inr ⟨typed, typed', rfl, rfl, hab⟩

end RawOperation

variable {ops others : List RawOperation}

theorem runOperations_agrees (h : List.Forall₂ RawOperation.Agrees ops others) (k : Nat)
    (m : Model) :
    runOperations Operation.handle ops k m = runOperations Operation.handle others k m := by
  induction h generalizing k m with
  | nil => rfl
  | cons hop _ ih =>
    rcases hop.validate m with ⟨r, hop, hother⟩ | ⟨typed, typed', hop, hother, halike⟩
    · simp only [runOperations, hop, hother]
    · simp only [runOperations, hop, hother, Operation.handle, halike.apply]
      cases typed'.apply m with
      | error r => rfl
      | ok p => exact ih (k + 1) p.1

theorem validateAll_agrees (h : List.Forall₂ RawOperation.Agrees ops others) (m : Model) :
    validateAll m ops = validateAll m others := by
  induction h with
  | nil => rfl
  | cons hop _ ih =>
    rcases hop.validate m with ⟨r, hop, hother⟩ | ⟨typed, typed', hop, hother, -⟩
    · simp only [validateAll, hop, hother]
    · simp only [validateAll, hop, hother, ih]

/-- The outcome without the metadata that it repeats from the patch. -/
def Outcome.plain (o : Outcome) : Outcome := { o with metadata := [] }

namespace Engine

/-- The engine without the metadata of the last patch. -/
def plain (e : Engine) : Engine := { e with lastOutcome := e.lastOutcome.map Outcome.plain }

variable {σ : Type}

/-- The calls end alike: with the same engine, the same state of the sink and the same outcome or
crash, but for the metadata of the patch. -/
structure EndAlike (r r' : Engine × σ × Except Crash Outcome) : Prop where
  engine : r.1.plain = r'.1.plain
  sink : r.2.1 = r'.2.1
  result : r.2.2.map Outcome.plain = r'.2.2.map Outcome.plain

theorem EndAlike.refl (r : Engine × σ × Except Crash Outcome) : EndAlike r r := ⟨rfl, rfl, rfl⟩

theorem finish_alike {o o' : Outcome} (h : o.plain = o'.plain) (r : Engine × σ × Option Crash) :
    EndAlike (finish o r) (finish o' r) := by
  obtain ⟨e, s, c⟩ := r
  cases c with
  | none => exact ⟨by simp [finish, plain, h], rfl, congrArg Except.ok h⟩
  | some c => exact .refl _

/-- How a run is concluded depends on the patch only by the number of its operations and by its
metadata, which the outcome repeats. -/
theorem conclude_alike {d d' : Document} (h : d.operations.length = d'.operations.length) (run : Run)
    (e : Engine) :
    e.conclude d run = e.conclude d' run ∨
      ∃ told o o' report, e.conclude d run = .ok (told, .ok (o, report)) ∧
        e.conclude d' run = .ok (told, .ok (o', report)) ∧ o.plain = o'.plain := by
  unfold conclude
  cases run.ending with
  | completed =>
    simp only [h]
    cases commit { e with model := run.model } with
    | error c => exact .inl rfl
    | ok told => exact .inr ⟨_, _, _, _, rfl, rfl, rfl⟩
  | refused r =>
    simp only [h]
    cases rollback { e with model := run.model } with
    | error c => exact .inl rfl
    | ok told => exact .inr ⟨_, _, _, _, rfl, rfl, rfl⟩
  | crashed c => exact .inl rfl

/-- Two texts whose operations agree pairwise on type, blueprint and declared fields are the same
patch: the engine says the same of both in advance, and they do the same to it. -/
theorem only_declared_fields_matter (sink : Sink σ) (text other : Json) (e : Engine) (s : σ)
    (hne : (Document.ofValue text).operations ≠ [])
    (h : List.Forall₂ RawOperation.Agrees (Document.ofValue text).operations
      (Document.ofValue other).operations) :
    e.canApply text = e.canApply other ∧
      EndAlike (e.apply sink text s) (e.apply sink other s) := by
  have hne' : (Document.ofValue other).operations ≠ [] := by
    rintro hnil
    rw [hnil, List.forall₂_nil_right_iff] at h
    exact hne h
  constructor
  · simp only [canApply, Document.isEmpty, List.isEmpty_iff, hne, hne', if_false,
      validateAll_agrees h]
  cases hbusy : e.busy with
  | true =>
    rw [apply_of_busy sink s hbusy, apply_of_busy sink s hbusy]
    exact .refl _
  | false =>
    simp only [apply, applyWith, hbusy, Document.isEmpty, List.isEmpty_iff, hne, hne', if_false,
      Bool.false_eq_true, runOperations_agrees h]
    cases Engine.begin e.label { e with busy := true, error := none, phase := .parsing } with
    | error c => exact .refl _
    | ok begun =>
      let run := runOperations Operation.handle (Document.ofValue other).operations 0 begun.model
      rcases conclude_alike h.length_eq run begun with heq | ⟨told, o, o', report, ho, ho', hplain⟩
      · simp only [run, heq]
        exact .refl _
      · simp only [run, ho, ho']
        exact finish_alike hplain _

/-- The deletion of the node in an array of operations, with its fields in another order, with a
key that no operation declares, a description, metadata and an element that is no operation. -/
def wordyDeletionOfN : String :=
  braced ("\"metadata\": " ++ braced "\"by\": 1" ++ ", \"operations\": [7, " ++
    braced ("\"node_id\": \"N\", \"member_name\": 0, \"description\": \"gone\", " ++
      "\"blueprint\": \"Lamp\", \"type\": \"node_delete\"") ++ "]")

def wordyDeleteN : RawOperation :=
  ⟨1, [("node_id", .str "N"), ("member_name", .int 0), ("description", .str "gone"),
    ("blueprint", .str "Lamp"), ("type", .str "node_delete")]⟩

set_option maxRecDepth 4000 in
theorem operations_deletionOfN :
    (Document.ofValue (.str deletionOfN)).operations = [deleteN 0] ∧
      (Document.ofValue (.str wordyDeletionOfN)).operations = [wordyDeleteN] := by
  exact ⟨rfl, rfl⟩

theorem deleteN_agrees_wordy : (deleteN 0).Agrees wordyDeleteN where
  same name hname := by
    have hkind : (deleteN 0).kind? = some .nodeDelete := rfl
    rw [hkind] at hname
    simp only [Option.elim, OperationKind.declared, List.mem_cons, List.not_mem_nil, or_false]
      at hname
    rcases hname with rfl | rfl | rfl <;> exact .some (.refl _)
  described := .inl rfl
  described' := .inr (.inr ⟨"gone", rfl⟩)

/-- Written either way, the deletion of the one node of the lamp ends alike. -/
theorem only_declared_fields_matter_deletionOfN :
    (Document.ofValue (.str deletionOfN)).operations ≠ [] ∧
    List.Forall₂ RawOperation.Agrees (Document.ofValue (.str deletionOfN)).operations
      (Document.ofValue (.str wordyDeletionOfN)).operations ∧
    lampEngine.canApply (.str deletionOfN) = lampEngine.canApply (.str wordyDeletionOfN) ∧
    EndAlike (lampEngine.apply silentSink (.str deletionOfN) ())
      (lampEngine.apply silentSink (.str wordyDeletionOfN) ()) := by
  have hne : (Document.ofValue (.str deletionOfN)).operations ≠ [] := by
    rw [operations_deletionOfN.1]
    exact List.cons_ne_nil _ _
  have hagree : List.Forall₂ RawOperation.Agrees (Document.ofValue (.str deletionOfN)).operations
      (Document.ofValue (.str wordyDeletionOfN)).operations := by
    rw [operations_deletionOfN.1, operations_deletionOfN.2]
    exact .cons deleteN_agrees_wordy .nil
  exact ⟨hne, hagree,
    only_declared_fields_matter silentSink (.str deletionOfN) (.str wordyDeletionOfN) lampEngine ()
      hne hagree⟩

end Engine

end BlueprintPatch

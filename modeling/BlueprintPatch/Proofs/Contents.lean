import BlueprintPatch.Proofs.Reachable
import Mathlib.Data.List.Forall2

/-! What blueprints hold, whichever objects hold it. There a rename puts one name for another in the
table of the variables and at the nodes that refer to the variable, and renames follow the laws of a
substitution. -/
namespace BlueprintPatch

/-- All that a blueprint holds but the notes about its changes. -/
def Blueprint.content (b : Blueprint) : BlueprintDraft :=
  { b.draft with modified := false, modificationCount := 0 }

theorem draft_drawAll {α β : Type} {make : β → Drawn α} {draft : α → β}
    (hmake : ∀ a n, draft (make (draft a) n).1 = draft a) (as : List α) (n : Nat) :
    (drawAll make (as.map draft) n).1.map draft = as.map draft := by
  induction as generalizing n with
  | nil => rfl
  | cons a as ih => simp only [List.map_cons, drawAll, hmake, ih]

theorem draft_make_pin (p : Pin) (n : Nat) : (p.draft.make n).1.draft = p.draft := rfl

theorem draft_make_node (x : Node) (n : Nat) : (x.draft.make n).1.draft = x.draft := by
  simp only [Node.draft, NodeDraft.make, Option.getD_some, draft_drawAll draft_make_pin]

theorem draft_make_graph (g : Graph) (n : Nat) : (g.draft.make n).1.draft = g.draft := by
  simp only [Graph.draft, GraphDraft.make, draft_drawAll draft_make_node]

theorem draft_make_variable (v : Variable) (n : Nat) : (v.draft.make n).1.draft = v.draft := rfl

theorem draft_make_content (b : Blueprint) (n : Nat) :
    (b.content.make n).1.draft = b.content := by
  simp only [Blueprint.content, Blueprint.draft, BlueprintDraft.make,
    draft_drawAll draft_make_variable, draft_drawAll draft_make_graph]

namespace PinDraft

def spec (d : PinDraft) : PinSpec := ⟨d.name, d.direction, d.pinType⟩

/-- The pin made one after `s`. It keeps its id, its default and its links. -/
def respec (s : PinSpec) (d : PinDraft) : PinDraft :=
  { d with name := s.name, direction := s.direction, pinType := s.pinType }

theorem respec_spec (d : PinDraft) : respec d.spec d = d := rfl

/-- Each pin made one after the spec at its place. -/
def respecAll (specs : List PinSpec) (ds : List PinDraft) : List PinDraft :=
  List.zipWith respec specs ds

theorem respecAll_spec (ds : List PinDraft) : respecAll (ds.map spec) ds = ds := by
  induction ds with
  | nil => rfl
  | cons d ds ih =>
    rw [List.map_cons, respecAll, List.zipWith_cons_cons, respec_spec]
    exact congrArg (d :: ·) ih

theorem map_spec_respecAll {specs : List PinSpec} {ds : List PinDraft}
    (h : specs.length = ds.length) : (respecAll specs ds).map spec = specs := by
  induction specs generalizing ds with
  | nil => rfl
  | cons s specs ih =>
    cases ds with
    | nil => simp at h
    | cons d ds =>
      rw [respecAll, List.zipWith_cons_cons, List.map_cons]
      exact congrArg (s :: ·) (ih (Nat.succ.inj h))

theorem respecAll_respecAll {specs former : List PinSpec} {ds : List PinDraft}
    (h : former.length = ds.length) :
    respecAll specs (respecAll former ds) = respecAll specs ds := by
  induction ds generalizing specs former with
  | nil => simp [respecAll]
  | cons d ds ih =>
    cases former with
    | nil => simp at h
    | cons t former =>
      cases specs with
      | nil => rfl
      | cons s specs => exact congrArg (respec s d :: ·) (ih (Nat.succ.inj h))

end PinDraft

def NodeKind.specs (member valueType : String) (kind : NodeKind) : List PinSpec :=
  (kind.pinSpecs? member valueType).getD []

theorem NodeKind.pinSpecs?_of_isVariable {kind : NodeKind} (h : kind.isVariable = true)
    (member valueType : String) :
    kind.pinSpecs? member valueType = some (kind.specs member valueType) := by
  cases kind <;> first | rfl | cases h

theorem NodeKind.length_specs (kind : NodeKind) (member member' valueType : String) :
    (kind.specs member valueType).length = (kind.specs member' valueType).length := by
  cases kind <;> rfl

namespace NodeDraft

def refersTo (name : String) (d : NodeDraft) : Bool :=
  d.kind.isVariable && d.memberName = some name

/-- The node has the pins of its kind in their order. Their ids, links and defaults do not
matter. -/
def Standard (valueType : String) (d : NodeDraft) : Prop :=
  d.kind.pinSpecs? (d.memberName.getD "") valueType = some (d.pins.map PinDraft.spec)

/-- A node that refers to `old` made one that refers to `new`, with its pins in their places. -/
def renamed (valueType old new : String) (d : NodeDraft) : NodeDraft :=
  if d.refersTo old then
    { d with
      memberName := some new
      pins := PinDraft.respecAll (d.kind.specs new valueType) d.pins }
  else d

variable {t a b c : String} {d : NodeDraft}

theorem refersTo_iff : d.refersTo a = true ↔ d.kind.isVariable = true ∧ d.memberName = some a := by
  simp [refersTo]

theorem specs_eq_of_standard (ha : d.refersTo a = true) (h : d.Standard t) :
    d.kind.specs a t = d.pins.map PinDraft.spec := by
  obtain ⟨hkind, hmember⟩ := refersTo_iff.mp ha
  rw [Standard, hmember, Option.getD_some, NodeKind.pinSpecs?_of_isVariable hkind] at h
  exact Option.some.inj h

theorem length_specs_of_standard (ha : d.refersTo a = true) (h : d.Standard t) (b : String) :
    (d.kind.specs b t).length = d.pins.length := by
  rw [d.kind.length_specs b a t, specs_eq_of_standard ha h, List.length_map]

theorem refersTo_renamed (ha : d.refersTo a = true) : (d.renamed t a b).refersTo b = true := by
  rw [renamed, if_pos ha]
  exact refersTo_iff.mpr ⟨(refersTo_iff.mp ha).1, rfl⟩

theorem renamed_of_not (ha : ¬ d.refersTo a = true) : d.renamed t a b = d := if_neg ha

theorem standard_renamed (ha : d.refersTo a = true) (h : d.Standard t) :
    (d.renamed t a b).Standard t := by
  rw [renamed, if_pos ha, Standard, Option.getD_some,
    PinDraft.map_spec_respecAll (length_specs_of_standard ha h b)]
  exact NodeKind.pinSpecs?_of_isVariable (refersTo_iff.mp ha).1 b t

theorem renamed_self (h : d.refersTo a = true → d.Standard t) : d.renamed t a a = d := by
  by_cases ha : d.refersTo a = true
  · rw [renamed, if_pos ha, specs_eq_of_standard ha (h ha), PinDraft.respecAll_spec,
      ← (refersTo_iff.mp ha).2]
  · exact renamed_of_not ha

theorem renamed_renamed (h : d.refersTo a = true → d.Standard t) (hb : ¬ d.refersTo b = true) :
    (d.renamed t a b).renamed t b c = d.renamed t a c := by
  by_cases ha : d.refersTo a = true
  · rw [renamed, if_pos (refersTo_renamed ha), renamed, if_pos ha, renamed, if_pos ha,
      PinDraft.respecAll_respecAll (length_specs_of_standard ha (h ha) b)]
  · rw [renamed_of_not ha, renamed_of_not hb, renamed_of_not ha]

end NodeDraft

def VariableDraft.renamed (old new : String) (v : VariableDraft) : VariableDraft :=
  if v.name = old then { v with name := new } else v

def GraphDraft.renamed (valueType old new : String) (g : GraphDraft) : GraphDraft :=
  { g with nodes := g.nodes.map (NodeDraft.renamed valueType old new) }

namespace BlueprintDraft

def nodes (d : BlueprintDraft) : List NodeDraft := d.graphs.flatMap (·.nodes)

def renamed (valueType old new : String) (d : BlueprintDraft) : BlueprintDraft :=
  { d with
    members := d.members.map (VariableDraft.renamed old new)
    graphs := d.graphs.map (GraphDraft.renamed valueType old new) }

variable {t a b c : String} {d : BlueprintDraft}

theorem nodes_renamed : (d.renamed t a b).nodes = d.nodes.map (NodeDraft.renamed t a b) := by
  simp only [nodes, renamed, List.flatMap_map, List.map_flatMap, GraphDraft.renamed]

theorem map_renamed_congr {f g : NodeDraft → NodeDraft} (h : ∀ x ∈ d.nodes, f x = g x) :
    d.graphs.map (fun k => { k with nodes := k.nodes.map f }) =
      d.graphs.map (fun k => { k with nodes := k.nodes.map g }) := by
  refine List.map_congr_left fun k hk => ?_
  have hnodes : k.nodes.map f = k.nodes.map g :=
    List.map_congr_left fun x hx => h x (List.mem_flatMap.mpr ⟨k, hk, hx⟩)
  rw [hnodes]

theorem renamed_self (h : ∀ x ∈ d.nodes, x.refersTo a = true → x.Standard t) :
    d.renamed t a a = d := by
  have hmembers : d.members.map (VariableDraft.renamed a a) = d.members := by
    refine (List.map_congr_left fun v _ => ?_).trans (List.map_id d.members)
    rw [VariableDraft.renamed]
    split
    · next hv => rw [← hv]; rfl
    · rfl
  have hgraphs : d.graphs.map (GraphDraft.renamed t a a) = d.graphs := by
    refine (map_renamed_congr (g := id) fun x hx => NodeDraft.renamed_self (h x hx)).trans ?_
    simp
  rw [renamed, hmembers, hgraphs]

theorem renamed_renamed (h : ∀ x ∈ d.nodes, x.refersTo a = true → x.Standard t)
    (hmember : ∀ v ∈ d.members, v.name ≠ b) (hnode : ∀ x ∈ d.nodes, ¬ x.refersTo b = true) :
    (d.renamed t a b).renamed t b c = d.renamed t a c := by
  have hmembers : (d.members.map (VariableDraft.renamed a b)).map (VariableDraft.renamed b c) =
      d.members.map (VariableDraft.renamed a c) := by
    rw [List.map_map]
    refine List.map_congr_left fun v hv => ?_
    by_cases ha : v.name = a
    · simp [VariableDraft.renamed, ha]
    · simp [VariableDraft.renamed, ha, hmember v hv]
  have hgraphs : (d.graphs.map (GraphDraft.renamed t a b)).map (GraphDraft.renamed t b c) =
      d.graphs.map (GraphDraft.renamed t a c) := by
    rw [List.map_map]
    have hcomp : GraphDraft.renamed t b c ∘ GraphDraft.renamed t a b = fun k =>
        { k with nodes := k.nodes.map (NodeDraft.renamed t b c ∘ NodeDraft.renamed t a b) } := by
      funext k
      simp [GraphDraft.renamed]
    rw [hcomp]
    exact map_renamed_congr fun x hx => NodeDraft.renamed_renamed (h x hx) (hnode x hx)
  simp only [renamed, hmembers, hgraphs]

end BlueprintDraft

end BlueprintPatch

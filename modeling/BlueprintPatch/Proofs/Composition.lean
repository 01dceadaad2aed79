import BlueprintPatch.Proofs.Contents
import BlueprintPatch.Proofs.Rebuilding
import Mathlib.Data.List.Find

/-! Renames one after another. A node with the pins of its kind keeps every pin in its place,
whatever the old and the new name of its variable are; so two renames that meet in a name are one,
and a rename back restores what was there. -/
namespace BlueprintPatch

namespace Node

/-- New pins that find their predecessors in the same order take over one after the other. -/
theorem map_draft_carryOver {names : String → List String} {specs : List PinSpec} {olds : List Pin}
    (h : List.Forall₂ (fun s p => ∀ n, precedes (names s.name) (s.pin n) p = true) specs olds)
    (n : Nat) :
    (carryOver names (newPins n specs) olds).map Pin.draft =
      PinDraft.respecAll specs (olds.map Pin.draft) := by
  induction h generalizing n with
  | nil => rfl
  | @cons s p specs olds hhead htail ih =>
    have htake : takeFirst? (precedes (names s.name) (s.pin n)) (p :: olds) = some (p, olds) :=
      if_pos (hhead n)
    rw [newPins_cons, carryOver, show (s.pin n).name = s.name from rfl, htake]
    simp only [List.map_cons, ih]
    rfl

theorem precedes_iff {names : List String} {new old : Pin} :
    precedes names new old = true ↔
      old.direction = new.direction ∧ old.name ∈ names ∧ old.isExec = new.isExec := by
  simp [precedes, and_assoc]

theorem mem_formerNames_iff {member previous : Option String} {name former : String} :
    former ∈ formerNames member previous name ↔
      former = name ∨ member = some name ∧ previous.filter (· ≠ "") = some former := by
  cases previous with
  | none => simp [formerNames]
  | some given =>
    by_cases hempty : given = ""
    · simp [formerNames, hempty]
    · have hgiven : (some given).filter (· ≠ "") = some given := if_pos (decide_eq_true hempty)
      rw [hgiven]
      by_cases hmember : member = some name <;> simp [formerNames, hempty, hmember, eq_comm]

theorem mem_formerNames (member previous : Option String) (name : String) :
    name ∈ formerNames member previous name :=
  mem_formerNames_iff.mpr (.inl rfl)

theorem former_mem_formerNames {old : String} (h : old ≠ "") (new : String) :
    old ∈ formerNames (some new) (some old) new :=
  mem_formerNames_iff.mpr (.inr ⟨rfl, if_pos (decide_eq_true h)⟩)

/-- The pins of a node for `old` stand in the order in which a node for `new` looks for them, also
if a name is that of one of the other pins. -/
theorem forall₂_specs {kind : NodeKind} (hkind : kind.isVariable = true) {old : String}
    (hold : old ≠ "") (new valueType : String) :
    List.Forall₂ (fun s s' : PinSpec => s'.direction = s.direction ∧ s'.pinType = s.pinType ∧
        s'.name ∈ formerNames (some new) (some old) s.name)
      (kind.specs new valueType) (kind.specs old valueType) := by
  have hself (name : String) := mem_formerNames (some new) (some old) name
  have hvalue := former_mem_formerNames hold new
  cases kind with
  | variableGet => exact .cons ⟨rfl, rfl, hvalue⟩ .nil
  | variableSet =>
    exact .cons ⟨rfl, rfl, hself _⟩ (.cons ⟨rfl, rfl, hself _⟩
      (.cons ⟨rfl, rfl, hvalue⟩ (.cons ⟨rfl, rfl, hself _⟩ .nil)))
  | functionCall => cases hkind
  | event => cases hkind
  | generic => cases hkind

theorem draft_rewireNode {old : String} (hold : old ≠ "") {valueType : String} (new : String)
    {x : Node} (h : x.draft.refersTo old = true → x.draft.Standard valueType) (n : Nat) :
    (Blueprint.rewireNode valueType old new n x).draft = x.draft.renamed valueType old new := by
  have hrefers : Blueprint.refersTo old x = x.draft.refersTo old := rfl
  by_cases ha : x.draft.refersTo old = true
  · obtain ⟨hkind, -⟩ := NodeDraft.refersTo_iff.mp ha
    have hspecs : x.kind.pinSpecs? new valueType = some (x.kind.specs new valueType) :=
      NodeKind.pinSpecs?_of_isVariable hkind new valueType
    have hpins : x.kind.specs old valueType = x.pins.map fun p => p.draft.spec := by
      have he := NodeDraft.specs_eq_of_standard ha (h ha)
      rwa [show x.draft.pins = x.pins.map Pin.draft from rfl, List.map_map] at he
    have hfits := forall₂_specs hkind hold new valueType
    rw [show x.draft.kind = x.kind from rfl, hpins, List.forall₂_map_right_iff] at hfits
    have hprecedes : List.Forall₂ (fun s p => ∀ n,
        precedes (formerNames (some new) (some old) s.name) (s.pin n) p = true)
        (x.kind.specs new valueType) x.pins := by
      refine hfits.imp fun s p hsp n => ?_
      obtain ⟨hdirection, htype, hname⟩ := hsp
      have hexec : p.isExec = (s.pin n).isExec := congrArg (fun t => decide (t = execType)) htype
      exact precedes_iff.mpr ⟨hdirection, hname, hexec⟩
    have hcarried := map_draft_carryOver hprecedes n
    rw [Blueprint.rewireNode, if_pos (hrefers ▸ ha),
      reconstruct_of_specs (x := { x with memberName := some new }) hspecs, NodeDraft.renamed,
      if_pos ha]
    simp only [draft, hcarried]
  · rw [Blueprint.rewireNode, if_neg (hrefers ▸ ha), NodeDraft.renamed_of_not ha]

end Node

section

variable {valueType old new : String}

theorem draft_rewireNodes (hold : old ≠ "") {xs : List Node}
    (h : ∀ x ∈ xs, x.draft.refersTo old = true → x.draft.Standard valueType) (n : Nat) :
    (Blueprint.rewireNodes valueType old new n xs).map Node.draft =
      (xs.map Node.draft).map (NodeDraft.renamed valueType old new) := by
  induction xs generalizing n with
  | nil => rfl
  | cons x xs ih =>
    rw [Blueprint.rewireNodes, List.map_cons, List.map_cons, List.map_cons,
      Node.draft_rewireNode hold new (h x (by simp)), ih fun y hy => h y (by simp [hy])]

theorem draft_rewireGraphs (hold : old ≠ "") {gs : List Graph}
    (h : ∀ x ∈ gs.flatMap (·.nodes), x.draft.refersTo old = true → x.draft.Standard valueType)
    (n : Nat) :
    (Blueprint.rewireGraphs valueType old new n gs).map Graph.draft =
      (gs.map Graph.draft).map (GraphDraft.renamed valueType old new) := by
  induction gs generalizing n with
  | nil => rfl
  | cons g gs ih =>
    rw [List.flatMap_cons] at h
    have hnodes : (Blueprint.rewireNodes valueType old new n g.nodes).map Node.draft = _ :=
      draft_rewireNodes hold (fun x hx => h x (List.mem_append_left _ hx)) n
    rw [Blueprint.rewireGraphs, List.map_cons, List.map_cons, List.map_cons,
      ih fun x hx => h x (List.mem_append_right _ hx)]
    refine congrArg (· :: _) ?_
    rw [GraphDraft.renamed, Graph.draft, hnodes]
    rfl

end

namespace Blueprint

variable {b : Blueprint} {old new : String}

theorem map_draft_renameFirst (h : (b.members.map (·.name)).Nodup) :
    (renameFirst old new b.members).map Variable.draft =
      (b.members.map Variable.draft).map (VariableDraft.renamed old new) := by
  rw [renameFirst_eq_map h, List.map_map, List.map_map]
  refine List.map_congr_left fun v _ => ?_
  by_cases hv : v.name = old
  · simp [VariableDraft.renamed, Variable.draft, hv]
  · simp [VariableDraft.renamed, Variable.draft, hv]

theorem valueType_renameVariable (h : (b.members.map (·.name)).Nodup)
    (hnew : b.hasVariable new = false) :
    (b.renameVariable old new).valueType new = b.valueType old := by
  have hname : ∀ v ∈ b.members, v.name ≠ new := by
    simpa [hasVariable] using hnew
  have hfind : ((b.members.map fun v => if v.name = old then { v with name := new } else v).reverse
      ).find? (·.name = new) =
        (b.members.reverse.find? (·.name = old)).map fun v => { v with name := new } := by
    rw [← List.map_reverse, List.find?_map]
    have hsame : ∀ v ∈ b.members.reverse, ((fun w : Variable => decide (w.name = new)) ∘
        fun v => if v.name = old then { v with name := new } else v) v =
          decide (v.name = old) := by
      intro v hv
      have hv' := hname v (List.mem_reverse.mp hv)
      by_cases ho : v.name = old
      · simp [ho]
      · simp [ho, hv']
    rw [List.find?_congr hsame]
    cases hfound : b.members.reverse.find? (·.name = old) with
    | none => rfl
    | some v =>
      have ho : v.name = old := by simpa using List.find?_some hfound
      rw [Option.map_some, Option.map_some, if_pos ho]
  rw [valueType, valueType, typeOf?, typeOf?, renameVariable, renameFirst_eq_map h, hfind,
    Option.map_map]
  rfl

/-- Every node that refers to the variable has the pins of its kind, with the type of the variable
at those that stand for it. -/
def StandardFor (name : String) (b : Blueprint) : Prop :=
  ∀ x ∈ b.allNodes, refersTo name x = true → x.draft.Standard (b.valueType name)

end Blueprint

theorem nodes_content (b : Blueprint) : b.content.nodes = b.allNodes.map Node.draft := by
  simp only [Blueprint.content, BlueprintDraft.nodes, Blueprint.draft, Blueprint.allNodes,
    List.flatMap_map, List.map_flatMap]
  rfl

theorem forall_nodes_content {P : NodeDraft → Prop} {b : Blueprint} :
    (∀ d ∈ b.content.nodes, P d) ↔ ∀ x ∈ b.allNodes, P x.draft := by
  rw [nodes_content, List.forall_mem_map]

namespace VariableRename

variable (op : VariableRename) {b : Blueprint}

theorem content_rename (hnames : (b.members.map (·.name)).Nodup)
    (hnew : b.hasVariable op.newName = false) (hold : op.oldName ≠ "")
    (hstandard : b.StandardFor op.oldName) (n : Nat) :
    (op.rename n b).content =
      b.content.renamed (b.valueType op.oldName) op.oldName op.newName := by
  have hgraphs : (op.rename n b).graphs = Blueprint.rewireGraphs (b.valueType op.oldName) op.oldName
      op.newName n b.graphs := by
    rw [← Blueprint.valueType_renameVariable hnames hnew]
    rfl
  have hmembers : (op.rename n b).members =
      Blueprint.renameFirst op.oldName op.newName b.members := rfl
  simp only [Blueprint.content, Blueprint.draft, BlueprintDraft.renamed, hgraphs, hmembers,
    draft_rewireGraphs hold hstandard, Blueprint.map_draft_renameFirst hnames]
  rfl

theorem valueType_rename (hnames : (b.members.map (·.name)).Nodup)
    (hnew : b.hasVariable op.newName = false) (n : Nat) :
    (op.rename n b).valueType op.newName = b.valueType op.oldName :=
  Blueprint.valueType_renameVariable hnames hnew

theorem standardFor_rename (hnames : (b.members.map (·.name)).Nodup)
    (hnew : b.hasVariable op.newName = false) (hold : op.oldName ≠ "")
    (hstandard : b.StandardFor op.oldName)
    (hnode : ∀ x ∈ b.allNodes, ¬ Blueprint.refersTo op.newName x = true) (n : Nat) :
    (op.rename n b).StandardFor op.newName := by
  rw [Blueprint.StandardFor, op.valueType_rename hnames hnew]
  refine forall_nodes_content (P := fun d => d.refersTo op.newName = true → d.Standard _) |>.mp ?_
  rw [op.content_rename hnames hnew hold hstandard, BlueprintDraft.nodes_renamed]
  intro d hd hrefers
  obtain ⟨d, hmem, rfl⟩ := List.mem_map.mp hd
  rw [nodes_content] at hmem
  obtain ⟨x, hx, rfl⟩ := List.mem_map.mp hmem
  by_cases ha : x.draft.refersTo op.oldName = true
  · exact NodeDraft.standard_renamed ha (hstandard x hx ha)
  · rw [NodeDraft.renamed_of_not ha] at hrefers
    exact absurd hrefers (hnode x hx)

/-- No variable has a name that none has had, or that the rename has taken away. -/
theorem hasVariable_rename_eq_false {name : String}
    (hnames : (b.members.map (·.name)).Nodup) (hne : name ≠ op.newName)
    (h : name = op.oldName ∨ b.hasVariable name = false) (n : Nat) :
    (op.rename n b).hasVariable name = false := by
  have hmembers : (op.rename n b).members =
      Blueprint.renameFirst op.oldName op.newName b.members := rfl
  rw [Blueprint.hasVariable, hmembers, renameFirst_eq_map hnames, List.any_map, List.any_eq_false]
  intro v hv
  by_cases ho : v.name = op.oldName
  · simpa [ho] using hne.symm
  · rcases h with rfl | h
    · simp [ho]
    · have hv' := List.any_eq_false.mp h v hv
      simpa [ho] using hv'

theorem hasVariable_rename_new
    (h : b.hasVariable op.oldName = true) (n : Nat) :
    (op.rename n b).hasVariable op.newName = true := by
  have hmembers : (op.rename n b).members =
      Blueprint.renameFirst op.oldName op.newName b.members := rfl
  rw [hasVariable_iff] at h ⊢
  rw [hmembers, map_name_renameFirst, (perm_replace op.newName h).mem_iff]
  exact List.mem_cons_self

end VariableRename

/-- The name `B` is free: no variable has it, and no node refers to it. -/
structure Blueprint.Free (B : String) (b : Blueprint) : Prop where
  member : b.hasVariable B = false
  node : ∀ x ∈ b.allNodes, ¬ refersTo B x = true

section

variable {b : Blueprint} {h₁ h₂ h₃ : Header} {A B C : String}

theorem content_rename_rename (hnames : (b.members.map (·.name)).Nodup)
    (hA : b.hasVariable A = true) (hA' : A ≠ "") (hB' : B ≠ "") (hB : b.Free B) (hCB : C ≠ B)
    (hC : C = A ∨ b.hasVariable C = false) (hstandard : b.StandardFor A) (n k : Nat) :
    (VariableRename.rename ⟨h₂, B, C⟩ k (VariableRename.rename ⟨h₁, A, B⟩ n b)).content =
      b.content.renamed (b.valueType A) A C := by
  let first : VariableRename := ⟨h₁, A, B⟩
  let second : VariableRename := ⟨h₂, B, C⟩
  have hchange : (Operation.variableRename first).change n b =
      some (first.rename n b, b.rewiringCost A) := if_pos ⟨hA, by simp [first, hB.member]⟩
  have hnames₁ := nodup_names_of_change hchange hnames
  have hcontent₁ : (first.rename n b).content = b.content.renamed (b.valueType A) A B :=
    first.content_rename hnames hB.member hA' hstandard n
  have hcontent₂ := second.content_rename hnames₁
    (first.hasVariable_rename_eq_false hnames hCB hC n) hB'
    (first.standardFor_rename hnames hB.member hA' hstandard hB.node n) k
  have htype : (first.rename n b).valueType B = b.valueType A :=
    first.valueType_rename hnames hB.member n
  refine hcontent₂.trans ?_
  rw [hcontent₁, show second.oldName = B from rfl, htype]
  refine BlueprintDraft.renamed_renamed (forall_nodes_content.mpr hstandard) ?_
    (forall_nodes_content.mpr hB.node)
  intro v hv he
  obtain ⟨w, hw, rfl⟩ := List.mem_map.mp hv
  exact List.any_eq_false.mp hB.member w hw (decide_eq_true he)

theorem Model.loaded_update_update {c : Blueprint} (h : b.handle = c.handle) (k : Nat)
    (m : Model) : (((m.update b).draw k).update c).loaded = (m.update c).loaded := by
  rw [loaded_update, loaded_draw, loaded_update, loaded_update, List.map_map]
  refine List.map_congr_left fun x _ => ?_
  by_cases hx : x.handle = b.handle
  · rw [Function.comp_apply, supplant_of_eq hx, supplant_of_eq h, supplant_of_eq (hx.trans h)]
  · rw [Function.comp_apply, supplant_of_ne hx]

theorem VariableRename.apply_eq_ok {m : Model} (hb : m.resolve? h₁.blueprint = some b)
    (hA : b.hasVariable A = true) (hB : b.hasVariable B = false) :
    apply ⟨h₁, A, B⟩ m = .ok ((m.update (rename ⟨h₁, A, B⟩ m.next b)).draw (b.rewiringCost A),
      "Renamed " ++ A ++ " -> " ++ B) :=
  apply_eq_ok_iff.mpr ⟨b, hb, ⟨hA, by simp [hB]⟩, rfl, rfl⟩

/-- A rename from `A` to `B` and then from `B` to `C` is one from `A` to `C`, and it is none if `C`
is `A`. No other blueprint changes. Any of the names may be that of a pin, and `C` may be empty. -/
theorem rename_rename {m : Model} (hm : m.Coherent) (hb₁ : m.resolve? h₁.blueprint = some b)
    (hb₂ : m.resolve? h₂.blueprint = some b) (hb₃ : m.resolve? h₃.blueprint = some b)
    (hnames : (b.members.map (·.name)).Nodup) (hA : b.hasVariable A = true) (hA' : A ≠ "")
    (hB' : B ≠ "") (hB : b.Free B) (hCB : C ≠ B) (hC : C = A ∨ b.hasVariable C = false)
    (hstandard : b.StandardFor A) :
    ∃ m₁ s₁ m₂ s₂ c, VariableRename.apply ⟨h₁, A, B⟩ m = .ok (m₁, s₁) ∧
      VariableRename.apply ⟨h₂, B, C⟩ m₁ = .ok (m₂, s₂) ∧
      Model.SameIdentity b c ∧ m₂.loaded = (m.update c).loaded ∧
      (C = A → c.content = b.content) ∧
      (C ≠ A → ∃ m₃ s₃ d, VariableRename.apply ⟨h₃, A, C⟩ m = .ok (m₃, s₃) ∧
        Model.SameIdentity b d ∧ m₃.loaded = (m.update d).loaded ∧ c.content = d.content) := by
  let b₁ := VariableRename.rename ⟨h₁, A, B⟩ m.next b
  let m₁ := (m.update b₁).draw (b.rewiringCost A)
  let c := VariableRename.rename ⟨h₂, B, C⟩ m₁.next b₁
  have hresolve : m₁.resolve? h₂.blueprint = some b₁ := by
    have hid : Model.SameIdentity b b₁ := ⟨rfl, rfl, rfl⟩
    rw [Model.resolve?_draw, Model.resolve?_update hm (Model.mem_of_resolve? hb₁) hid, hb₂]
    exact congrArg some (Model.supplant_of_eq rfl)
  have happly₁ := VariableRename.apply_eq_ok hb₁ hA hB.member
  have happly₂ := VariableRename.apply_eq_ok hresolve
    (VariableRename.hasVariable_rename_new ⟨h₁, A, B⟩ hA m.next)
    (VariableRename.hasVariable_rename_eq_false ⟨h₁, A, B⟩ hnames hCB hC m.next)
  have hloaded : (m₁.update c).loaded = (m.update c).loaded :=
    Model.loaded_update_update (b := b₁) (c := c) rfl _ m
  have hcontent : c.content = b.content.renamed (b.valueType A) A C :=
    content_rename_rename hnames hA hA' hB' hB hCB hC hstandard m.next m₁.next
  refine ⟨m₁, _, _, _, c, happly₁, happly₂, ⟨rfl, rfl, rfl⟩, hloaded, ?_, ?_⟩
  · rintro rfl
    rw [hcontent, BlueprintDraft.renamed_self (forall_nodes_content.mpr hstandard)]
  · intro hne
    have hC' : b.hasVariable C = false := hC.resolve_left hne
    refine ⟨_, _, VariableRename.rename ⟨h₃, A, C⟩ m.next b,
      VariableRename.apply_eq_ok hb₃ hA hC', ⟨rfl, rfl, rfl⟩, rfl, ?_⟩
    rw [hcontent]
    exact (VariableRename.content_rename ⟨h₃, A, C⟩ hnames hC' hA' hstandard m.next).symm

end

/-- A blueprint whose variable is called as a pin and carries control flow, with a node that sets it
and one that gets it. -/
def switchDraft : BlueprintDraft :=
  ⟨"Switch", "/Game/Switch", none, [⟨"execute", execType, "", false⟩],
    [⟨"EventGraph", .eventGraph,
      [⟨"S", some "G", .variableSet, some "execute", .zero, .zero,
        [⟨some "P", "execute", .input, execType, "", ["T"]⟩,
         ⟨some "Q", "then", .output, execType, "", []⟩,
         ⟨some "R", "execute", .input, execType, "on", []⟩,
         ⟨some "T", "Output_Get", .output, execType, "", ["P"]⟩]⟩,
       ⟨"N", some "H", .variableGet, some "execute", .zero, .zero,
        [⟨some "U", "execute", .output, execType, "", []⟩]⟩]⟩], false, 0⟩

def switchModel : Model := Model.empty.load switchDraft

def switchRename (A B : String) : VariableRename := ⟨⟨"variable_rename", "Switch", none, []⟩, A, B⟩

/-- To the name of another pin and back. -/
theorem rename_rename_switch :
    switchModel.Coherent ∧
    ∃ b m₁ s₁ m₂ s₂ c, switchModel.resolve? "Switch" = some b ∧
      (switchRename "execute" "then").apply switchModel = .ok (m₁, s₁) ∧
      (switchRename "then" "execute").apply m₁ = .ok (m₂, s₂) ∧
      m₂.loaded = (switchModel.update c).loaded ∧ c.content = b.content := by
  have hcoherent : switchModel.Coherent :=
    (Reachable.load switchDraft (by decide) .empty).tidy.coherent
  have hstandard : (switchDraft.make 0).1.StandardFor "execute" := by
    intro x hx hrefers
    revert x
    simp only [Blueprint.allNodes, NodeDraft.Standard]
    decide
  obtain ⟨m₁, s₁, m₂, s₂, c, h₁, h₂, -, hloaded, hback, -⟩ :=
    @rename_rename (switchDraft.make 0).1 (switchRename "" "").header (switchRename "" "").header
      (switchRename "" "").header "execute" "then" "execute" switchModel hcoherent rfl rfl rfl
      (by decide) (by decide) (by decide) (by decide) ⟨by decide, by decide⟩ (by decide) (.inl rfl)
      hstandard
  exact ⟨hcoherent, _, m₁, s₁, m₂, s₂, c, rfl, h₁, h₂, hloaded, hback rfl⟩

end BlueprintPatch

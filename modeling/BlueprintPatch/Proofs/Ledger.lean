import BlueprintPatch.Proofs.Naming
import BlueprintPatch.Proofs.Step
import BlueprintPatch.Proofs.Supply

/-! Ledgers: what of a blueprint decides which operations succeed. A ledger keeps the names of the
variables and the labels of the nodes and nothing else; operations act on ledgers as they do on
blueprints. -/
namespace BlueprintPatch

/-- What a patch can name a node by. Nobody knows the guid of a node that the patch itself adds. -/
structure Label where
  name : String
  guid : Option String
deriving DecidableEq, Repr

def Label.answersTo (key : String) (l : Label) : Bool := l.name = key || l.guid = some key

/-- The graphs by name, each with the labels of its nodes. -/
abbrev Roster := List (String × List Label)

namespace Roster

def names (r : Roster) : List String := (r.flatMap (·.2)).map (·.name)

/-- The name of the kind with the least index that no label has. -/
def freshName (kind : NodeKind) (r : Roster) : String :=
  let free := (List.range (r.names.length + 1)).find? fun i => Blueprint.nodeName kind i ∉ r.names
  Blueprint.nodeName kind (free.getD r.names.length)

/-- The roster with a label at the end of the first graph of that name. -/
def append (graph : String) (l : Label) : Roster → Roster
  | [] => []
  | g :: rest => if g.1 = graph then (g.1, g.2 ++ [l]) :: rest else g :: append graph l rest

/-- The roster without the first label that answers to the key. -/
def delete? (key : String) : Roster → Option Roster
  | [] => none
  | g :: rest =>
    match takeFirst? (·.answersTo key) g.2 with
    | some (_, left) => some ((g.1, left) :: rest)
    | none => (delete? key rest).map (g :: ·)

/-- What an operation makes of the roster; none if it does not find its graph or its node. -/
def step (op : Operation) (r : Roster) : Option Roster :=
  match op with
  | .variableRename _ => some r
  | .nodeAdd op =>
    if r.any (·.1 = op.graph) then
      op.target?.map fun t => r.append op.graph ⟨r.freshName t.1, none⟩
    else none
  | .nodeDelete op => r.delete? op.nodeId
  | .unsupported _ _ => none

end Roster

/-- What an operation makes of the names of the variables; none if they do not admit it. -/
def stepNames (op : Operation) (names : List String) : Option (List String) :=
  match op with
  | .variableRename op =>
    if op.oldName ∈ names ∧ op.newName ∉ names then some (names.replace op.oldName op.newName)
    else none
  | _ => some names

structure Ledger where
  names : List String
  roster : Roster

namespace Ledger

def step (l : Ledger) (op : Operation) : Option Ledger :=
  match stepNames op l.names, l.roster.step op with
  | some names, some roster => some ⟨names, roster⟩
  | _, _ => none

def run (ops : List Operation) (l : Ledger) : Option Ledger := ops.foldlM step l

end Ledger

def runNames (ops : List Operation) (names : List String) : Option (List String) :=
  ops.foldlM (fun names op => stepNames op names) names

def Roster.run (ops : List Operation) (r : Roster) : Option Roster :=
  ops.foldlM (fun r op => r.step op) r

/-- The two halves of a ledger do not look at each other. -/
theorem Ledger.isSome_run (ops : List Operation) (l : Ledger) :
    (l.run ops).isSome = ((runNames ops l.names).isSome && (l.roster.run ops).isSome) := by
  induction ops generalizing l with
  | nil => rfl
  | cons op ops ih =>
    simp only [run, runNames, Roster.run, List.foldlM_cons] at ih ⊢
    cases hn : stepNames op l.names with
    | none => simp [step, hn]
    | some names =>
      cases hr : l.roster.step op with
      | none => simp [step, hn, hr]
      | some roster => simpa [step, hn, hr] using ih ⟨names, roster⟩

open Classical in
/-- The label of a node in the eyes of someone who knows the ids with numbers below `n`. -/
noncomputable def Node.label (n : Nat) (x : Node) : Label :=
  ⟨x.name, if IsGeneratedFrom n x.guid then none else some x.guid⟩

noncomputable def rosterOf (n : Nat) (gs : List Graph) : Roster :=
  gs.map fun g => (g.name, g.nodes.map (Node.label n))

noncomputable def Blueprint.ledger (n : Nat) (b : Blueprint) : Ledger :=
  ⟨b.members.map (·.name), rosterOf n b.graphs⟩

theorem answersTo_label {n : Nat} {key : String} (hkey : ¬ IsGeneratedFrom n key) (x : Node) :
    (x.label n).answersTo key = x.answersTo key := by
  by_cases hx : IsGeneratedFrom n x.guid
  · have hne : x.guid ≠ key := fun h => hkey (h ▸ hx)
    simp [Label.answersTo, Node.answersTo, Node.label, hx, hne]
  · simp [Label.answersTo, Node.answersTo, Node.label, hx]

theorem names_rosterOf (n : Nat) (b : Blueprint) :
    (rosterOf n b.graphs).names = b.allNodes.map (·.name) := by
  simp only [Roster.names, rosterOf, Blueprint.allNodes, List.flatMap_map, List.map_flatMap,
    List.map_map]
  rfl

theorem freshName_rosterOf (n : Nat) (kind : NodeKind) (b : Blueprint) :
    (rosterOf n b.graphs).freshName kind = b.freshNodeName kind := by
  simp only [Roster.freshName, Blueprint.freshNodeName, names_rosterOf]

theorem takeFirst?_map {α β : Type} (f : α → β) (p : β → Bool) (as : List α) :
    takeFirst? p (as.map f) = (takeFirst? (p ∘ f) as).map fun r => (f r.1, r.2.map f) := by
  simp [takeFirst?_eq, List.eraseP_map, Function.comp_def]

theorem rosterOf_mapPins (n : Nat) (f : Pin → Pin) (gs : List Graph) :
    rosterOf n (gs.map (Blueprint.mapPins f)) = rosterOf n gs := by
  simp only [rosterOf, List.map_map]
  apply List.map_congr_left
  intro g _
  refine Prod.ext rfl ?_
  simp only [Function.comp_apply, Blueprint.mapPins, List.map_map]
  rfl

theorem rosterOf_rewireGraphs (n : Nat) (valueType old new : String) (k : Nat) (gs : List Graph) :
    rosterOf n (Blueprint.rewireGraphs valueType old new k gs) = rosterOf n gs := by
  induction gs generalizing k with
  | nil => rfl
  | cons g gs ih =>
    have hnodes : (Blueprint.rewireNodes valueType old new k g.nodes).map (Node.label n) =
        g.nodes.map (Node.label n) := map_rewireNodes (fun _ _ _ => rfl) ..
    simp only [Blueprint.rewireGraphs, rosterOf, List.map_cons, hnodes] at ih ⊢
    rw [ih]

theorem rosterOf_appendNode (n : Nat) (graph : String) (x : Node) (gs : List Graph) :
    rosterOf n (Blueprint.appendNode (·.name = graph) x gs) =
      (rosterOf n gs).append graph (x.label n) := by
  induction gs with
  | nil => rfl
  | cons g gs ih =>
    simp only [rosterOf] at ih
    by_cases h : g.name = graph <;>
      simp [Blueprint.appendNode, rosterOf, Roster.append, h, ih]

theorem rosterOf_takeNode? {n : Nat} {key : String} (hkey : ¬ IsGeneratedFrom n key)
    (gs : List Graph) :
    (takeNode? (·.answersTo key) gs).map (fun r => rosterOf n r.2) =
      (rosterOf n gs).delete? key := by
  have hanswers : (Label.answersTo key ∘ Node.label n) = Node.answersTo key :=
    funext (answersTo_label hkey)
  induction gs with
  | nil => rfl
  | cons g gs ih =>
    simp only [rosterOf] at ih
    have hfirst := takeFirst?_map (Node.label n) (Label.answersTo key) g.nodes
    rw [hanswers] at hfirst
    simp only [takeNode?, rosterOf, List.map_cons, Roster.delete?, hfirst]
    cases takeFirst? (Node.answersTo key) g.nodes with
    | some r => rfl
    | none =>
      simp only [Option.map_none, Option.map_map, ← ih]
      rfl

theorem any_rosterOf (n : Nat) (graph : String) (b : Blueprint) :
    (rosterOf n b.graphs).any (·.1 = graph) = b.hasGraph graph := by
  simp [rosterOf, Blueprint.hasGraph, List.any_map, Function.comp_def]

theorem label_newNode {n k : Nat} (hk : n ≤ k) (kind : NodeKind) (member : Option String)
    (x y : Binary64) (b : Blueprint) :
    (b.newNode kind member x y k).label n = ⟨b.freshNodeName kind, none⟩ := by
  have hnew : IsGeneratedFrom n (generatedId k) := ⟨k, hk, rfl⟩
  rw [Blueprint.newNode_eq]
  simp [Node.label, hnew]

/-- The operation does not mention an id that is still to be generated. -/
def Operation.MentionsOnly (n : Nat) (op : Operation) : Prop :=
  ∀ d, op = .nodeDelete d → ¬ IsGeneratedFrom n d.nodeId

/-- What an operation does to a blueprint shows in the ledger as what it does to the ledger. -/
theorem ledger_change {n k : Nat} (hk : n ≤ k) (b : Blueprint) {op : Operation}
    (hop : op.MentionsOnly n) :
    (op.change k b).map (fun r => r.1.ledger n) = (b.ledger n).step op := by
  cases op with
  | variableRename op =>
    have hroster : rosterOf n (op.rename k b).graphs = rosterOf n b.graphs :=
      rosterOf_rewireGraphs ..
    have hnames : (op.rename k b).members.map (·.name) =
        (b.members.map (·.name)).replace op.oldName op.newName := map_name_renameFirst ..
    by_cases h : op.oldName ∈ b.members.map (·.name) ∧ op.newName ∉ b.members.map (·.name)
    · have hchange : (Operation.variableRename op).change k b =
          some (op.rename k b, b.rewiringCost op.oldName) :=
        if_pos (by simpa only [hasVariable_iff] using h)
      have hnames' : stepNames (.variableRename op) (b.members.map (·.name)) =
          some ((b.members.map (·.name)).replace op.oldName op.newName) := if_pos h
      simp only [hchange, Option.map_some, Ledger.step, Blueprint.ledger, hnames', hnames, hroster]
      rfl
    · have hchange : (Operation.variableRename op).change k b = none :=
        if_neg (by simpa only [hasVariable_iff] using h)
      have hnames' : stepNames (.variableRename op) (b.members.map (·.name)) = none := if_neg h
      simp only [hchange, Option.map_none, Ledger.step, Blueprint.ledger, hnames']
  | nodeAdd op =>
    simp only [Operation.change, Ledger.step, stepNames, Roster.step, Blueprint.ledger,
      any_rosterOf]
    by_cases hgraph : b.hasGraph op.graph
    · cases op.target? with
      | none => simp [hgraph]
      | some t =>
        simp only [hgraph, if_true, Option.map_some, freshName_rosterOf]
        congr 2
        have hlabel : (op.node t k b).label n = ⟨b.freshNodeName t.1, none⟩ :=
          label_newNode hk ..
        exact (rosterOf_appendNode n op.graph _ b.graphs).trans (by rw [hlabel])
    · simp [hgraph]
  | nodeDelete op =>
    have hroster := rosterOf_takeNode? (hop op rfl) b.graphs
    simp only [Operation.change, Ledger.step, stepNames, Roster.step, Blueprint.ledger, ← hroster,
      Blueprint.removeNode?]
    cases takeNode? (·.answersTo op.nodeId) b.graphs with
    | none => rfl
    | some r => simp [Blueprint.markModified, rosterOf_mapPins]
  | unsupported kind header => rfl

end BlueprintPatch

import BlueprintPatch.Proofs.Ledger
import BlueprintPatch.Proofs.Rebuilding
import Mathlib.GroupTheory.Perm.ViaEmbedding

/-! Renumbering: what becomes of nodes and pins when the numbers of the supply are exchanged for one
another, in the handles and in the generated ids alike. Which number an object has makes no
difference to any operation; so an operation on a renumbered blueprint makes of it, renumbered, what
it makes of the blueprint. -/
namespace BlueprintPatch

/-- The renumbering takes the `k` numbers from `n` on to those from `n'` on, in their order. -/
def Shifts (ρ : Equiv.Perm ℕ) (n n' k : ℕ) : Prop := ∀ i < k, ρ (n + i) = n' + i

namespace Shifts

variable {ρ : Equiv.Perm ℕ} {n n' j k : ℕ}

theorem mono (h : Shifts ρ n n' k) (hj : j ≤ k) : Shifts ρ n n' j :=
  fun i hi => h i (by omega)

theorem drop (h : Shifts ρ n n' (j + k)) : Shifts ρ (n + j) (n' + j) k := by
  intro i hi
  rw [Nat.add_assoc, h (j + i) (by omega), Nat.add_assoc]

theorem head (h : Shifts ρ n n' (k + 1)) : ρ n = n' := h 0 (by omega)

theorem tail (h : Shifts ρ n n' (k + 1)) : Shifts ρ (n + 1) (n' + 1) k := by
  rw [Nat.add_comm] at h
  exact h.drop

end Shifts

namespace Renumber

/-- What the renumbering makes of ids: of a generated id the one with the other number; any other
text stays. -/
noncomputable def id (ρ : Equiv.Perm ℕ) : Equiv.Perm String :=
  ρ.viaEmbedding ⟨generatedId, fun _ _ => generatedId_inj⟩

variable (ρ : Equiv.Perm ℕ)

@[simp] theorem id_generatedId (n : ℕ) : id ρ (generatedId n) = generatedId (ρ n) :=
  ρ.viaEmbedding_apply _ n

theorem id_of_not_generated {s : String} (h : ∀ n, s ≠ generatedId n) : id ρ s = s :=
  ρ.viaEmbedding_apply_of_notMem _ s (by rintro ⟨n, rfl⟩; exact h n rfl)

theorem id_mul (σ : Equiv.Perm ℕ) (s : String) : id (ρ * σ) s = id ρ (id σ s) := by
  have h := map_mul (Equiv.Perm.viaEmbeddingHom ⟨generatedId, fun _ _ => generatedId_inj⟩) ρ σ
  exact congrArg (· s) h

theorem id_one (s : String) : id 1 s = s := by
  have h := map_one (Equiv.Perm.viaEmbeddingHom ⟨generatedId, fun _ _ => generatedId_inj⟩)
  exact congrArg (· s) h

theorem id_of_not_isGeneratedFrom {ρ : Equiv.Perm ℕ} {n : ℕ} (hρ : ∀ k < n, ρ k = k) {s : String}
    (h : ¬ IsGeneratedFrom n s) : id ρ s = s := by
  by_cases hs : ∃ k, s = generatedId k
  · obtain ⟨k, rfl⟩ := hs
    have hk : k < n := by
      by_contra hle
      exact h ⟨k, by omega, rfl⟩
    rw [id_generatedId, hρ k hk]
  · exact id_of_not_generated ρ fun k hk => hs ⟨k, hk⟩

end Renumber

section

variable (ρ : Equiv.Perm ℕ)

noncomputable def Pin.renumber (p : Pin) : Pin :=
  { p with handle := ρ p.handle, id := Renumber.id ρ p.id
           linkedTo := p.linkedTo.map (Renumber.id ρ) }

noncomputable def Node.renumber (x : Node) : Node :=
  { x with handle := ρ x.handle, guid := Renumber.id ρ x.guid
           pins := x.pins.map (Pin.renumber ρ) }

noncomputable def Graph.renumber (g : Graph) : Graph :=
  { g with nodes := g.nodes.map (Node.renumber ρ) }

/-- The blueprint with the nodes and pins renumbered. Its own handle and those of its graphs and
variables stay: no operation makes such objects. -/
noncomputable def Blueprint.renumber (b : Blueprint) : Blueprint :=
  { b with graphs := b.graphs.map (Graph.renumber ρ) }

end

variable {ρ : Equiv.Perm ℕ} {n n' k : ℕ}

theorem Pin.renumber_succeed (p old : Pin) :
    (p.succeed old).renumber ρ = (p.renumber ρ).succeed (old.renumber ρ) := rfl

theorem Pin.renumber_unlink (ids : List String) (p : Pin) :
    (p.unlink ids).renumber ρ = (p.renumber ρ).unlink (ids.map (Renumber.id ρ)) := by
  have hmem (s : String) : Renumber.id ρ s ∈ ids.map (Renumber.id ρ) ↔ s ∈ ids :=
    List.mem_map_of_injective (Renumber.id ρ).injective
  simp only [unlink, renumber, List.filter_map, Function.comp_def, hmem]

theorem PinSpec.renumber_pin (s : PinSpec) (h : ρ n = n') : (s.pin n).renumber ρ = s.pin n' := by
  simp [PinSpec.pin, Pin.renumber, h]

theorem renumber_newPins (specs : List PinSpec) (h : Shifts ρ n n' specs.length) :
    (newPins n specs).map (Pin.renumber ρ) = newPins n' specs := by
  induction specs generalizing n n' with
  | nil => rfl
  | cons s specs ih =>
    rw [newPins_cons, newPins_cons, List.map_cons, s.renumber_pin h.head, ih h.tail]

namespace Node

theorem renumber_carryOver (names : String → List String) (fresh olds : List Pin) :
    carryOver names (fresh.map (Pin.renumber ρ)) (olds.map (Pin.renumber ρ)) =
      (carryOver names fresh olds).map (Pin.renumber ρ) := by
  induction fresh generalizing olds with
  | nil => rfl
  | cons p fresh ih =>
    have hprecedes : precedes (names (p.renumber ρ).name) (p.renumber ρ) ∘ Pin.renumber ρ =
        precedes (names p.name) p := rfl
    rw [List.map_cons, carryOver, carryOver, takeFirst?_map, hprecedes]
    cases takeFirst? (precedes (names p.name) p) olds with
    | none => simp only [Option.map_none, List.map_cons, ih]
    | some r => simp only [Option.map_some, List.map_cons, Pin.renumber_succeed, ih]

theorem renumber_allocate (valueType : String) (x : Node)
    (h : Shifts ρ n n' (Blueprint.pinCost x)) :
    ((x.allocate valueType n).renumber ρ) = (x.renumber ρ).allocate valueType n' := by
  unfold allocate
  cases hspecs : x.kind.pinSpecs? (x.memberName.getD "") valueType with
  | none => simp only [renumber, hspecs]
  | some specs =>
    rw [pinCost_eq hspecs] at h
    simp only [renumber, hspecs, renumber_newPins specs h]

theorem renumber_reconstruct (valueType : String) (previous : Option String) (x : Node)
    (h : Shifts ρ n n' (Blueprint.pinCost x)) :
    (x.reconstruct valueType previous n).renumber ρ =
      (x.renumber ρ).reconstruct valueType previous n' := by
  have hfresh := congrArg Node.pins (renumber_allocate valueType x h)
  unfold reconstruct
  by_cases hkind : x.kind = .generic
  · have hkind' : (x.renumber ρ).kind = .generic := hkind
    rw [if_pos hkind, if_pos hkind']
  · have hkind' : (x.renumber ρ).kind ≠ .generic := hkind
    rw [if_neg hkind, if_neg hkind']
    simp only [← hfresh]
    simp only [renumber, renumber_carryOver]

end Node

namespace Blueprint

theorem renumber_rewireNode (valueType old new : String) (x : Node)
    (h : Shifts ρ n n' (rewireCost old x)) :
    (rewireNode valueType old new n x).renumber ρ =
      rewireNode valueType old new n' (x.renumber ρ) := by
  have hrefers : refersTo old (x.renumber ρ) = refersTo old x := rfl
  unfold rewireNode
  rw [hrefers]
  unfold rewireCost at h
  cases hold : refersTo old x with
  | false => rfl
  | true =>
    rw [hold] at h
    exact Node.renumber_reconstruct valueType (some old) { x with memberName := some new } h

theorem renumber_rewireNodes (valueType old new : String) (xs : List Node)
    (h : Shifts ρ n n' (total (xs.map (rewireCost old)))) :
    (rewireNodes valueType old new n xs).map (Node.renumber ρ) =
      rewireNodes valueType old new n' (xs.map (Node.renumber ρ)) := by
  induction xs generalizing n n' with
  | nil => rfl
  | cons x xs ih =>
    have hcost : rewireCost old (x.renumber ρ) = rewireCost old x := rfl
    have hhead : Shifts ρ n n' (rewireCost old x) := h.mono (Nat.le_add_right _ _)
    simp only [List.map_cons, rewireNodes, renumber_rewireNode valueType old new x hhead, hcost,
      ih h.drop]

theorem renumber_rewireGraphs (valueType old new : String) (gs : List Graph)
    (h : Shifts ρ n n' (total (gs.map (graphCost old)))) :
    (rewireGraphs valueType old new n gs).map (Graph.renumber ρ) =
      rewireGraphs valueType old new n' (gs.map (Graph.renumber ρ)) := by
  induction gs generalizing n n' with
  | nil => rfl
  | cons g gs ih =>
    have hcost : graphCost old (g.renumber ρ) = graphCost old g := by
      simp only [graphCost, Graph.renumber, List.map_map]
      rfl
    have hhead : Shifts ρ n n' (graphCost old g) := h.mono (Nat.le_add_right _ _)
    simp only [List.map_cons, rewireGraphs, hcost, ih h.drop]
    simp only [Graph.renumber, renumber_rewireNodes valueType old new g.nodes hhead]

theorem allNodes_renumber (b : Blueprint) :
    (b.renumber ρ).allNodes = b.allNodes.map (Node.renumber ρ) := by
  simp only [allNodes, renumber, List.flatMap_map, List.map_flatMap, Graph.renumber]

theorem renumber_appendNode (graph : String) (x : Node) (gs : List Graph) :
    (appendNode (·.name = graph) x gs).map (Graph.renumber ρ) =
      appendNode (·.name = graph) (x.renumber ρ) (gs.map (Graph.renumber ρ)) := by
  induction gs with
  | nil => rfl
  | cons g gs ih =>
    by_cases h : g.name = graph <;> simp [appendNode, Graph.renumber, h, ih]

theorem renumber_takeNode? {p : Node → Bool} (hp : ∀ x, p (x.renumber ρ) = p x) (gs : List Graph) :
    takeNode? p (gs.map (Graph.renumber ρ)) =
      (takeNode? p gs).map fun r => (r.1.renumber ρ, r.2.map (Graph.renumber ρ)) := by
  have hcomp : p ∘ Node.renumber ρ = p := funext hp
  induction gs with
  | nil => rfl
  | cons g gs ih =>
    have hnodes : (g.renumber ρ).nodes = g.nodes.map (Node.renumber ρ) := rfl
    rw [List.map_cons, takeNode?, takeNode?, hnodes, takeFirst?_map, hcomp, ih]
    cases takeFirst? p g.nodes with
    | none => simp only [Option.map_none, Option.map_map, Function.comp_def, List.map_cons]
    | some r => rfl

theorem renumber_mapPins_unlink (ids : List String) (g : Graph) :
    (mapPins (Pin.unlink ids) g).renumber ρ =
      mapPins (Pin.unlink (ids.map (Renumber.id ρ))) (g.renumber ρ) := by
  simp only [mapPins, Graph.renumber, Node.renumber, List.map_map, Function.comp_def,
    Pin.renumber_unlink]

theorem renumber_removeNode? {p : Node → Bool} (hp : ∀ x, p (x.renumber ρ) = p x) (b : Blueprint) :
    (b.renumber ρ).removeNode? p = (b.removeNode? p).map (renumber ρ) := by
  have hgraphs : (b.renumber ρ).graphs = b.graphs.map (Graph.renumber ρ) := rfl
  rw [removeNode?, removeNode?, hgraphs, renumber_takeNode? hp, Option.map_map, Option.map_map]
  congr 1
  funext taken
  obtain ⟨x, left⟩ := taken
  simp only [Function.comp_apply, renumber, Node.renumber, List.map_map, Function.comp_def,
    renumber_mapPins_unlink]
  rfl

theorem freshNodeName_renumber (kind : NodeKind) (b : Blueprint) :
    (b.renumber ρ).freshNodeName kind = b.freshNodeName kind := by
  have hnames : (b.allNodes.map (Node.renumber ρ)).map (·.name) = b.allNodes.map (·.name) := by
    rw [List.map_map]
    rfl
  simp only [freshNodeName, allNodes_renumber, hnames]

theorem length_pins_newNode (kind : NodeKind) (member : Option String) (x y : Binary64) (n : ℕ)
    (b : Blueprint) :
    (b.newNode kind member x y n).pins.length =
      ((kind.pinSpecs? "" "").map List.length).getD 0 := by
  cases kind <;> rfl

theorem renumber_newNode (kind : NodeKind) (member : Option String) (x y : Binary64) (b : Blueprint)
    (h : Shifts ρ n n' (1 + (b.newNode kind member x y n).pins.length)) :
    (b.newNode kind member x y n).renumber ρ = (b.renumber ρ).newNode kind member x y n' := by
  rw [length_pins_newNode, Nat.add_comm] at h
  have hvalue (name : String) : (b.renumber ρ).valueType name = b.valueType name := rfl
  rw [newNode, newNode, Node.renumber_allocate _ _ h.tail, freshNodeName_renumber, hvalue]
  simp only [Node.renumber, h.head, Renumber.id_generatedId, List.map_nil]

end Blueprint

/-- The renumbering leaves the id alone that the operation mentions, if it mentions one. -/
def Operation.Ignores (ρ : Equiv.Perm ℕ) (op : Operation) : Prop :=
  ∀ d, op = .nodeDelete d → Renumber.id ρ d.nodeId = d.nodeId

theorem Node.answersTo_renumber {key : String} (h : Renumber.id ρ key = key) (x : Node) :
    (x.renumber ρ).answersTo key = x.answersTo key := by
  have hguid : Renumber.id ρ x.guid = key ↔ x.guid = key := by
    rw [← (Renumber.id ρ).injective.eq_iff (a := x.guid), h]
  exact congrArg (decide (x.name = key) || ·) (decide_eq_decide.mpr hguid)

theorem VariableRename.renumber_rename (r : VariableRename) (b : Blueprint)
    (h : Shifts ρ n n' (b.rewiringCost r.oldName)) :
    (r.rename n b).renumber ρ = r.rename n' (b.renumber ρ) := by
  have hgraphs := Blueprint.renumber_rewireGraphs
    ((b.renameVariable r.oldName r.newName).valueType r.newName) r.oldName r.newName b.graphs h
  exact congrArg
    (fun gs => { (b.renameVariable r.oldName r.newName).markModified with graphs := gs }) hgraphs

theorem NodeAdd.renumber_add (a : NodeAdd) (x : Node) (b : Blueprint) :
    (a.add x b).renumber ρ = a.add (x.renumber ρ) (b.renumber ρ) := by
  simp only [add, Blueprint.addNode, Blueprint.markModified, Blueprint.renumber,
    Blueprint.renumber_appendNode]

theorem Blueprint.rewiringCost_renumber (old : String) (b : Blueprint) :
    (b.renumber ρ).rewiringCost old = b.rewiringCost old := by
  simp only [rewiringCost, renumber, List.map_map]
  congr 1
  apply List.map_congr_left
  intro g _
  simp only [Function.comp_apply, graphCost, Graph.renumber, List.map_map]
  rfl

theorem Blueprint.hasGraph_renumber (graph : String) (b : Blueprint) :
    (b.renumber ρ).hasGraph graph = b.hasGraph graph := by
  rw [hasGraph, hasGraph, renumber, List.any_map]
  rfl

/-- An operation makes of the renumbered blueprint, with the numbers that the renumbering gives for
those that it draws, the renumbered result. -/
theorem Operation.change_renumber {op : Operation} {b c : Blueprint} (hop : op.Ignores ρ)
    (h : op.change n b = some (c, k)) (hρ : Shifts ρ n n' k) :
    op.change n' (b.renumber ρ) = some (c.renumber ρ, k) := by
  rcases change_cases h with
    ⟨r, rfl, hnames, rfl, rfl⟩ | ⟨a, t, rfl, hgraph, ht, rfl, rfl⟩ | ⟨d, left, rfl, hleft, rfl, rfl⟩
  · have hnames' : (b.renumber ρ).hasVariable r.oldName ∧ ¬ (b.renumber ρ).hasVariable r.newName :=
      hnames
    rw [change, if_pos hnames', r.renumber_rename b hρ, Blueprint.rewiringCost_renumber]
  · have hgraph' : (b.renumber ρ).hasGraph a.graph := by rwa [Blueprint.hasGraph_renumber]
    have hnode : (a.node t n b).renumber ρ = a.node t n' (b.renumber ρ) :=
      Blueprint.renumber_newNode t.1 (some t.2) a.position.x a.position.y b hρ
    have hlength : (a.node t n' (b.renumber ρ)).pins.length = (a.node t n b).pins.length := by
      rw [← hnode, Node.renumber, List.length_map]
    simp only [change, hgraph', if_true, ht, Option.map_some, a.renumber_add, hnode, hlength]
  · have hp := Node.answersTo_renumber (hop d rfl)
    have hremove := Blueprint.renumber_removeNode? hp b
    rw [change, hremove, hleft]
    rfl

theorem Pin.renumber_mul (ρ σ : Equiv.Perm ℕ) :
    Pin.renumber (ρ * σ) = Pin.renumber ρ ∘ Pin.renumber σ := by
  have hid : ⇑(Renumber.id (ρ * σ)) = Renumber.id ρ ∘ Renumber.id σ := funext (Renumber.id_mul ρ σ)
  funext p
  simp only [Function.comp_apply, renumber, hid, List.map_map, Equiv.Perm.mul_apply]

theorem Node.renumber_mul (ρ σ : Equiv.Perm ℕ) :
    Node.renumber (ρ * σ) = Node.renumber ρ ∘ Node.renumber σ := by
  funext x
  simp only [Function.comp_apply, renumber, Pin.renumber_mul, List.map_map, Renumber.id_mul,
    Equiv.Perm.mul_apply]

theorem Graph.renumber_mul (ρ σ : Equiv.Perm ℕ) :
    Graph.renumber (ρ * σ) = Graph.renumber ρ ∘ Graph.renumber σ := by
  funext g
  simp only [Function.comp_apply, renumber, Node.renumber_mul, List.map_map]

theorem Blueprint.renumber_mul (ρ σ : Equiv.Perm ℕ) :
    Blueprint.renumber (ρ * σ) = Blueprint.renumber ρ ∘ Blueprint.renumber σ := by
  funext b
  simp only [Function.comp_apply, renumber, Graph.renumber_mul, List.map_map]

theorem Pin.renumber_one : Pin.renumber 1 = fun p => p := by
  have hid : ⇑(Renumber.id 1) = fun s => s := funext Renumber.id_one
  funext p
  simp only [renumber, hid, List.map_id', Equiv.Perm.one_apply]

theorem Node.renumber_one : Node.renumber 1 = fun x => x := by
  funext x
  simp only [renumber, Pin.renumber_one, Renumber.id_one, List.map_id', Equiv.Perm.one_apply]

theorem Blueprint.renumber_one : Blueprint.renumber 1 = fun b => b := by
  have hgraph : Graph.renumber 1 = fun g => g := by
    funext g
    simp only [Graph.renumber, Node.renumber_one, List.map_id']
  funext b
  simp only [renumber, hgraph, List.map_id']

/-- The pin has its handle, and the ids that it holds, from the numbers below `n` or not from the
supply. -/
structure Pin.Below (n : ℕ) (p : Pin) : Prop where
  handle : p.handle < n
  id : ¬ IsGeneratedFrom n p.id
  links : ∀ s ∈ p.linkedTo, ¬ IsGeneratedFrom n s

structure Node.Below (n : ℕ) (x : Node) : Prop where
  handle : x.handle < n
  guid : ¬ IsGeneratedFrom n x.guid
  pins : ∀ p ∈ x.pins, p.Below n

def Blueprint.Below (n : ℕ) (b : Blueprint) : Prop := ∀ x ∈ b.allNodes, x.Below n

/-- What is drawn from `n` on makes no difference to the blueprint. -/
def Blueprint.Supported (n : ℕ) (b : Blueprint) : Prop :=
  ∀ ρ : Equiv.Perm ℕ, (∀ k < n, ρ k = k) → b.renumber ρ = b

section

variable (hρ : ∀ k < n, ρ k = k)

include hρ

theorem Pin.Below.renumber {p : Pin} (h : p.Below n) : p.renumber ρ = p := by
  have hlinks : p.linkedTo.map (Renumber.id ρ) = p.linkedTo :=
    map_eq_self fun s hs => Renumber.id_of_not_isGeneratedFrom hρ (h.links s hs)
  simp only [Pin.renumber, hlinks, hρ _ h.handle, Renumber.id_of_not_isGeneratedFrom hρ h.id]

theorem Node.Below.renumber {x : Node} (h : x.Below n) : x.renumber ρ = x := by
  have hpins : x.pins.map (Pin.renumber ρ) = x.pins :=
    map_eq_self fun p hp => (h.pins p hp).renumber hρ
  simp only [Node.renumber, hpins, hρ _ h.handle, Renumber.id_of_not_isGeneratedFrom hρ h.guid]

end

theorem Blueprint.Below.supported {b : Blueprint} (h : b.Below n) : b.Supported n := by
  intro ρ hρ
  have hgraph (g : Graph) (hg : g ∈ b.graphs) : g.renumber ρ = g := by
    have hnodes : g.nodes.map (Node.renumber ρ) = g.nodes :=
      map_eq_self fun x hx => (h x (List.mem_flatMap.mpr ⟨g, hg, hx⟩)).renumber hρ
    simp only [Graph.renumber, hnodes]
  simp only [Blueprint.renumber, map_eq_self hgraph]

theorem Blueprint.Supported.mono {b : Blueprint} (h : b.Supported n) (hk : n ≤ k) :
    b.Supported k :=
  fun ρ hρ => h ρ fun j hj => hρ j (by omega)

theorem Operation.MentionsOnly.ignores {op : Operation} (h : op.MentionsOnly n)
    (hρ : ∀ k < n, ρ k = k) : op.Ignores ρ :=
  fun d hd => Renumber.id_of_not_isGeneratedFrom hρ (h d hd)

/-- What an operation makes of a blueprint depends on the numbers that the blueprint has, and on
those that the operation draws. -/
theorem Blueprint.Supported.change {op : Operation} {b c : Blueprint} {m : ℕ} (hm : m ≤ n)
    (hop : op.MentionsOnly m) (h : b.Supported n) (hchange : op.change n b = some (c, k)) :
    c.Supported (n + k) := by
  intro ρ hρ
  have hdrawn : Shifts ρ n n k := fun i hi => hρ (n + i) (by omega)
  have hignores : op.Ignores ρ := hop.ignores fun j hj => hρ j (by omega)
  have hsame := Operation.change_renumber hignores hchange hdrawn
  rw [h ρ fun j hj => hρ j (by omega), hchange] at hsame
  exact (Prod.mk.inj (Option.some.inj hsame)).1.symm

end BlueprintPatch

import BlueprintPatch.Patch.Engine
import BlueprintPatch.Proofs.Heap
import BlueprintPatch.Proofs.Taking

/-! The operations carried out on a heap, where blueprints, graphs and nodes may be shared. Each one
looks its target up by name; the change itself looks up once more, by identity and among all loaded
blueprints, who owns the target. What the first search has found the second one finds. -/
namespace BlueprintPatch

/-- How an operation on a heap ended. -/
inductive Ending
  | done (summary : String)
  | refused (e : PatchError)
  | raised (text : String)
deriving DecidableEq, Repr

namespace Heap

def resolve? (id : String) (h : Heap) : Option Handle :=
  if id = "" then none
  else match h.registry.find? fun b => (h.blueprint b).path = id with
    | some b => some b
    | none => h.registry.find? fun b => (h.blueprint b).name = id

def findVariable? (name : String) (b : Handle) (h : Heap) : Option Handle :=
  (h.list (h.blueprint b).members).find? fun v => (h.member v).name = name

def findGraph? (name : String) (b : Handle) (h : Heap) : Option Handle :=
  (h.list (h.blueprint b).graphs).find? fun g => (h.graph g).name = name

def findNode? (key : String) (b : Handle) (h : Heap) : Option Handle :=
  (h.nodesOf b).find? fun n => (h.node n).name = key || (h.node n).guid = key

/-- The first loaded blueprint that holds the graph. -/
def graphOwner? (g : Handle) (h : Heap) : Option Handle :=
  h.registry.find? fun b => g ∈ h.list (h.blueprint b).graphs

end Heap

def VariableRename.onHeap (op : VariableRename) (h : Heap) : Heap × Ending :=
  match h.resolve? op.header.blueprint with
  | none => (h, .refused (Refusal.blueprintNotFound op.header.blueprint).report)
  | some b =>
    match h.findVariable? op.oldName b with
    | none => (h, .refused (Refusal.variableNotFound op.oldName).report)
    | some v =>
      if (h.findVariable? op.newName b).isSome then
        (h, .refused (Refusal.variableExists op.newName).report)
      else
        ((((h.renameVariable v op.newName).rewire b op.oldName op.newName).markModified b),
          .done ("Renamed " ++ op.oldName ++ " -> " ++ op.newName))

def NodeAdd.onHeap (op : NodeAdd) (h : Heap) : Heap × Ending :=
  match h.resolve? op.header.blueprint with
  | none => (h, .refused (Refusal.blueprintNotFound op.header.blueprint).report)
  | some b =>
    match h.findGraph? op.graph b with
    | none => (h, .refused (Refusal.graphNotFound op.graph).report)
    | some g =>
      match op.target .nodeTypeNotCreated with
      | .error r => (h, .refused r.report)
      | .ok (kind, member) =>
        match h.graphOwner? g with
        | none =>
          (h, .raised ("Graph '" ++ (h.graph g).name ++ "' does not belong to a loaded blueprint"))
        | some owner =>
          ((h.createNode g kind (some member) op.position.x op.position.y).markModified b,
            .done ("Added " ++ (h.readBlueprint owner).freshNodeName kind))

def NodeDelete.onHeap (op : NodeDelete) (h : Heap) : Heap × Ending :=
  match h.resolve? op.header.blueprint with
  | none => (h, .refused (Refusal.blueprintNotFound op.header.blueprint).report)
  | some b =>
    match h.findNode? op.nodeId b with
    | none => (h, .refused (Refusal.nodeNotFound op.nodeId).report)
    | some n =>
      match h.ownerOf n with
      | none => (h, .refused ⟨.nodeNotFound, "Failed to remove node from graph"⟩)
      | some _ => ((h.deleteNode n).markModified b, .done ("Deleted " ++ op.nodeId))

def Operation.onHeap (h : Heap) : Operation → Heap × Ending
  | .variableRename op => op.onHeap h
  | .nodeAdd op => op.onHeap h
  | .nodeDelete op => op.onHeap h
  | .unsupported kind _ => (h, .refused (Refusal.notImplemented kind).report)

namespace Heap

variable {h : Heap}

theorem find?_loaded {m : Model} (hm : h.loaded = m.loaded) (p : Blueprint → Bool) :
    m.loaded.find? p = (h.registry.find? fun b => p (h.readBlueprint b)).map h.readBlueprint := by
  rw [← hm]
  exact List.find?_map ..

theorem resolve?_loaded {m : Model} (hm : h.loaded = m.loaded) (id : String) :
    m.resolve? id = (h.resolve? id).map h.readBlueprint := by
  have hpath : m.loaded.find? (·.path = id) =
      (h.registry.find? fun b => (h.blueprint b).path = id).map h.readBlueprint :=
    find?_loaded hm _
  have hname : m.loaded.find? (·.name = id) =
      (h.registry.find? fun b => (h.blueprint b).name = id).map h.readBlueprint :=
    find?_loaded hm _
  rw [Model.resolve?, resolve?, hpath, hname]
  by_cases hid : id = ""
  · simp [hid]
  · simp only [hid, if_false]
    cases h.registry.find? fun b => (h.blueprint b).path = id <;> rfl

theorem mem_of_resolve? {id : String} {b : Handle} (hb : h.resolve? id = some b) :
    b ∈ h.registry := by
  unfold resolve? at hb
  split at hb
  · contradiction
  · split at hb
    · next heq => exact Option.some.inj hb ▸ List.mem_of_find?_eq_some heq
    · exact List.mem_of_find?_eq_some hb

theorem hasVariable_readBlueprint (h : Heap) (name : String) (b : Handle) :
    (h.readBlueprint b).hasVariable name = (h.findVariable? name b).isSome := by
  rw [findVariable?, List.isSome_find?]
  exact List.any_map

theorem hasGraph_readBlueprint (h : Heap) (name : String) (b : Handle) :
    (h.readBlueprint b).hasGraph name = (h.findGraph? name b).isSome := by
  rw [findGraph?, List.isSome_find?]
  exact List.any_map

theorem allNodes_readBlueprint (h : Heap) (b : Handle) :
    (h.readBlueprint b).allNodes = (h.nodesOf b).map h.readNode := by
  rw [nodesOf, List.map_flatMap]
  exact List.flatMap_map ..

theorem findNode?_readBlueprint (h : Heap) (key : String) (b : Handle) :
    (h.readBlueprint b).findNode? key = (h.findNode? key b).map h.readNode := by
  rw [Blueprint.findNode?, allNodes_readBlueprint]
  exact List.find?_map ..

theorem graphOwner?_eq_some {name : String} {b g : Handle} (hb : b ∈ h.registry)
    (hg : h.findGraph? name b = some g) : ∃ owner, h.graphOwner? g = some owner := by
  have hmem : g ∈ h.list (h.blueprint b).graphs := List.mem_of_find?_eq_some hg
  apply Option.isSome_iff_exists.mp
  rw [graphOwner?, List.find?_isSome]
  exact ⟨b, hb, by simpa using hmem⟩

theorem ownerOf_eq_some {key : String} {b n : Handle} (hb : b ∈ h.registry)
    (hn : h.findNode? key b = some n) : ∃ owner, h.ownerOf n = some owner := by
  have hmem : n ∈ h.nodesOf b := List.mem_of_find?_eq_some hn
  obtain ⟨g, hg, hng⟩ := List.mem_flatMap.mp hmem
  apply Option.isSome_iff_exists.mp
  rw [ownerOf, List.findSome?_isSome_iff]
  refine ⟨b, hb, ?_⟩
  rw [Option.isSome_map, List.find?_isSome]
  exact ⟨g, hg, by simpa using hng⟩

end Heap

/-- On the heap an operation ends as on the model: it is refused for the same reason and has changed
nothing, or it is carried out. -/
def AgreesWith (h : Heap) (x : Heap × Ending) : Except Refusal (Model × String) → Prop
  | .error r => x = (h, .refused r.report)
  | .ok _ => ∃ h' summary, x = (h', .done summary)

variable {h : Heap} {m : Model}

theorem resolve_cases (hm : h.loaded = m.loaded) (id : String) :
    (h.resolve? id = none ∧ m.resolve id = .error (.blueprintNotFound id)) ∨
      ∃ b ∈ h.registry, h.resolve? id = some b ∧ m.resolve id = .ok (h.readBlueprint b) := by
  have hloaded := Heap.resolve?_loaded hm id
  cases hb : h.resolve? id with
  | none =>
    rw [hb] at hloaded
    exact .inl ⟨rfl, by rw [Model.resolve, hloaded]; rfl⟩
  | some b =>
    rw [hb] at hloaded
    exact .inr ⟨b, Heap.mem_of_resolve? hb, rfl, by rw [Model.resolve, hloaded]; rfl⟩

theorem VariableRename.onHeap_agrees (op : VariableRename) (hm : h.loaded = m.loaded) :
    AgreesWith h (op.onHeap h) (op.apply m) := by
  rcases resolve_cases hm op.header.blueprint with ⟨hb, hmb⟩ | ⟨b, -, hb, hmb⟩
  · simp only [onHeap, apply, hb, hmb]
    rfl
  · have hold := h.hasVariable_readBlueprint op.oldName b
    have hnew := h.hasVariable_readBlueprint op.newName b
    simp only [onHeap, apply, validate, bind, Except.bind, hb, hmb, hold, hnew]
    cases h.findVariable? op.oldName b with
    | none => rfl
    | some v =>
      cases h.findVariable? op.newName b with
      | none => exact ⟨_, _, rfl⟩
      | some w => rfl

theorem NodeAdd.onHeap_agrees (op : NodeAdd) (hm : h.loaded = m.loaded) :
    AgreesWith h (op.onHeap h) (op.apply m) := by
  rcases resolve_cases hm op.header.blueprint with ⟨hb, hmb⟩ | ⟨b, hreg, hb, hmb⟩
  · simp only [onHeap, apply, hb, hmb]
    rfl
  · have hgraph := h.hasGraph_readBlueprint op.graph b
    simp only [onHeap, apply, bind, Except.bind, hb, hmb, hgraph]
    cases hg : h.findGraph? op.graph b with
    | none => rfl
    | some g =>
      obtain ⟨owner, howner⟩ := Heap.graphOwner?_eq_some hreg hg
      cases op.target .nodeTypeNotCreated with
      | error r => rfl
      | ok target =>
        simp only [howner]
        exact ⟨_, _, rfl⟩

theorem NodeDelete.onHeap_agrees (op : NodeDelete) (hm : h.loaded = m.loaded) :
    AgreesWith h (op.onHeap h) (op.apply m) := by
  rcases resolve_cases hm op.header.blueprint with ⟨hb, hmb⟩ | ⟨b, hreg, hb, hmb⟩
  · simp only [onHeap, apply, hb, hmb]
    rfl
  · have hnode : ((h.readBlueprint b).removeNode? (·.answersTo op.nodeId)).isSome =
        (h.findNode? op.nodeId b).isSome := by
      rw [Blueprint.isSome_removeNode?, ← Blueprint.findNode?, h.findNode?_readBlueprint,
        Option.isSome_map]
    simp only [onHeap, apply, bind, Except.bind, hb, hmb]
    cases hn : h.findNode? op.nodeId b with
    | none =>
      rw [hn, Option.isSome_none, Option.isSome_eq_false_iff, Option.isNone_iff_eq_none] at hnode
      simp only [hnode]
      rfl
    | some n =>
      rw [hn, Option.isSome_some, Option.isSome_iff_exists] at hnode
      obtain ⟨left, hleft⟩ := hnode
      obtain ⟨owner, howner⟩ := Heap.ownerOf_eq_some hreg hn
      simp only [hleft, howner]
      exact ⟨_, _, rfl⟩

theorem Operation.onHeap_agrees (op : Operation) (hm : h.loaded = m.loaded) :
    AgreesWith h (op.onHeap h) (op.apply m) := by
  cases op with
  | variableRename op => exact op.onHeap_agrees hm
  | nodeAdd op => exact op.onHeap_agrees hm
  | nodeDelete op => exact op.onHeap_agrees hm
  | unsupported kind header => rfl

end BlueprintPatch

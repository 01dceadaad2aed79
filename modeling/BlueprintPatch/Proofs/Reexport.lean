import BlueprintPatch.Proofs.Reimport
import BlueprintPatch.Proofs.Step

/-! Imported contexts exported again. A node comes back in its place, under its name, but as a node
of one of five classes, since a kind stands for all the classes that the import takes for it; and its
member comes back under the field of that class. -/
namespace BlueprintPatch

namespace Context

def objectsIn (name : String) (fields : Fields) : List Fields :=
  match fields.get? name with
  | some (.arr items) => items.filterMap Json.fields?
  | _ => []

def writtenClasses : List String :=
  ["K2Node_VariableGet", "K2Node_VariableSet", "K2Node_CallFunction", "K2Node_Event", "K2Node"]

/-- The class under which a node of that class comes back. -/
def classAfter (name : String) : String :=
  if name ∈ writtenClasses then name
  else if name = "K2Node_CustomEvent" then "K2Node_Event"
  else "K2Node"

def memberKeys : List String := ["variableName", "functionName", "eventName"]

/-- The field for the member of a node of that class. -/
def memberKeyOf (name : String) : Option String :=
  if name = "K2Node_VariableGet" ∨ name = "K2Node_VariableSet" then some "variableName"
  else if name = "K2Node_CallFunction" then some "functionName"
  else if name = "K2Node_Event" then some "eventName"
  else none

/-- The node has one member, in the field `key`. -/
structure HasMember (key name : String) (fields : Fields) : Prop where
  field : key ∈ memberKeys
  nonempty : name ≠ ""
  given : fields.get? key = some (.str name)
  only : ∀ k ∈ memberKeys, k ≠ key → fields.get? k = none

/-- What is kept of a node that is imported and exported again. -/
structure Returned (fields out : Fields) : Prop where
  name : out.get? "name" = some (fieldOr "name" (.str "") fields)
  className : ∀ c, fields.get? "class" = some (.str c) →
    out.get? "class" = some (.str (classAfter c))
  member : ∀ c key name, fields.get? "class" = some (.str c) → HasMember key name fields →
    ∀ k ∈ memberKeys,
      out.get? k = if memberKeyOf (classAfter c) = some k then some (.str name) else none

theorem className_kindsByClass (c : String) :
    ((kindsByClass.lookup c).getD .generic).className = classAfter c := by
  by_cases hknown : c ∈ kindsByClass.map (·.1)
  · revert c
    decide
  · have hlookup : kindsByClass.lookup c = none := by
      rw [List.lookup_eq_none_iff]
      intro p hp
      exact bne_iff_ne.mpr fun he => hknown (List.mem_map.mpr ⟨p, hp, he.symm⟩)
    simp only [kindsByClass, List.map_cons, List.map_nil, List.mem_cons, List.not_mem_nil, or_false,
      not_or] at hknown
    obtain ⟨hget, hset, hcall, hevent, hcustom⟩ := hknown
    rw [hlookup, Option.getD_none, classAfter, if_neg hcustom]
    by_cases hgeneric : c = "K2Node"
    · simp [hgeneric, writtenClasses, NodeKind.className]
    · simp [writtenClasses, hget, hset, hcall, hevent, hgeneric, NodeKind.className]

theorem memberField?_eq (k : NodeKind) : memberField? k = memberKeyOf k.className := by
  cases k <;> rfl

theorem memberOf_of_hasMember {key name : String} {fields : Fields}
    (h : HasMember key name fields) : memberOf fields = .str name := by
  obtain ⟨hfield, hne, hgiven, honly⟩ := h
  have htruthy : (Json.str name).isTruthy = true := by simpa [Json.isTruthy] using hne
  have hother (k : String) (hk : k ∈ memberKeys) (hkey : k ≠ key) :
      fieldOr k .null fields = .null := by
    rw [fieldOr, honly k hk hkey, Option.getD_none]
  have hown : fieldOr key .null fields = .str name := by rw [fieldOr, hgiven, Option.getD_some]
  simp only [memberKeys, List.mem_cons, List.not_mem_nil, or_false] at hfield
  rcases hfield with rfl | rfl | rfl
  · simp [memberOf, hown, firstTruthy, htruthy]
  · simp [memberOf, hown, hother "variableName" (by decide) (by decide), firstTruthy,
      Json.isTruthy, hne]
  · simp [memberOf, hown, hother "variableName" (by decide) (by decide),
      hother "functionName" (by decide) (by decide), firstTruthy, Json.isTruthy]

theorem checked_eq_ok {α : Type} {record : RecordKind} {c : Checked α} {a : α}
    (h : checked record c = .ok a) : c = .ok a := by
  cases c with
  | ok b => exact congrArg Checked.ok (Except.ok.inj h)
  | errors es => cases h

theorem within_eq_ok {α : Type} {step : String} {c : Checked α} {a : α}
    (h : c.within step = .ok a) : c = .ok a := by
  cases c with
  | ok b => exact h
  | errors es => cases h

theorem text_eq_ok {v : Json} {s : String} (h : Rule.text v = .ok s) : v = .str s := by
  cases v with
  | str t => exact congrArg Json.str (Checked.ok.inj h)
  | _ => cases h

theorem get?_idField_append {fields : Fields} {name key other : String} (h : other ≠ name)
    (rest : Fields) : (idField name key fields ++ rest).get? other = rest.get? other := by
  unfold idField
  split
  · split <;> simp [Fields.get?_cons, h]
  · rfl

theorem importNode_eq_ok {fields : Fields} {d : NodeDraft} (h : importNode fields = .ok d) :
    kindOf fields = .ok d.kind ∧ fieldOr "name" (.str "") fields = .str d.name ∧
      Rule.optional Rule.text (memberOf fields) = .ok d.memberName := by
  obtain ⟨kind, hkind, h⟩ := bind_eq_ok_iff.mp h
  obtain ⟨pins, -, h⟩ := bind_eq_ok_iff.mp h
  obtain ⟨posX, -, h⟩ := bind_eq_ok_iff.mp h
  obtain ⟨posY, -, h⟩ := bind_eq_ok_iff.mp h
  obtain ⟨f₁, _, h₁, -, rfl⟩ := Checked.seq_eq_ok (checked_eq_ok h)
  obtain ⟨f₂, y, h₂, -, rfl⟩ := Checked.seq_eq_ok h₁
  obtain ⟨f₃, x, h₃, -, rfl⟩ := Checked.seq_eq_ok h₂
  obtain ⟨f₄, member, h₄, hmember, rfl⟩ := Checked.seq_eq_ok h₃
  obtain ⟨f₅, k, h₅, hk, rfl⟩ := Checked.seq_eq_ok h₄
  obtain ⟨f₆, guid, h₆, -, rfl⟩ := Checked.seq_eq_ok h₅
  obtain ⟨name, hname, rfl⟩ := Checked.map_eq_ok h₆
  rw [Fields.take, get?_idField_append (by decide)] at hmember hk
  refine ⟨?_, ?_, ?_⟩
  · have hchoice := within_eq_ok hk
    simp only [Rule.choice, NodeKind.ofName?_name] at hchoice
    rw [hkind, Checked.ok.inj hchoice]
  · obtain ⟨v, hv, htext⟩ := Fields.need_eq_ok hname
    rw [get?_idField_append (by decide)] at hv
    rw [← text_eq_ok htext]
    exact Option.some.inj hv
  · exact within_eq_ok hmember

theorem get?_memberFields {x : Node} {name : String} (h : x.memberName = some name)
    (hne : name ≠ "") (k : String) :
    (memberFields x).get? k = if memberField? x.kind = some k then some (.str name) else none := by
  rw [memberFields, h]
  cases memberField? x.kind with
  | none => rfl
  | some key =>
    simp only [hne, if_false, Fields.get?_cons, Fields.get?_nil, Option.some.injEq, eq_comm]

theorem returned_node {fields : Fields} {d : NodeDraft} (h : importNode fields = .ok d) (n : Nat) :
    ∃ out, exportNode (d.make n).1 = .obj out ∧ Returned fields out := by
  obtain ⟨hkind, hname, hmember⟩ := importNode_eq_ok h
  have hclass {c : String} (hc : fields.get? "class" = some (.str c)) :
      d.kind.className = classAfter c := by
    rw [kindOf, fieldOr, hc, Option.getD_some] at hkind
    rw [← Except.ok.inj hkind, className_kindsByClass]
  refine ⟨_, rfl, ⟨?_, ?_, ?_⟩⟩
  · rw [hname]
    rfl
  · intro c hc
    rw [← hclass hc]
    rfl
  · intro c key name hc hhas k hk
    rw [memberOf_of_hasMember hhas] at hmember
    have hname : (d.make n).1.memberName = some name := (Checked.ok.inj hmember).symm
    have hfield : memberField? (d.make n).1.kind = memberKeyOf (classAfter c) := by
      rw [memberField?_eq, ← hclass hc]
      rfl
    rw [get?_append_of_none, get?_memberFields hname hhas.nonempty, hfield]
    simp only [memberKeys, List.mem_cons, List.not_mem_nil, or_false] at hk
    rcases hk with rfl | rfl | rfl <;> rfl

theorem forall₂_returned {α β : Type} {convert : Fields → Import β} {make : β → Drawn α}
    {record : α → Json} {P : Fields → Fields → Prop}
    (hitem : ∀ fields d, convert fields = .ok d →
      ∀ n, ∃ out, record (make d n).1 = .obj out ∧ P fields out)
    {items : List Fields} {ds : List β} (h : items.mapM convert = .ok ds) (n : Nat) :
    List.Forall₂ P items (((drawAll make ds n).1.map record).filterMap Json.fields?) := by
  induction items generalizing ds n with
  | nil =>
    obtain rfl : [] = ds := Except.ok.inj h
    exact .nil
  | cons fields items ih =>
    rw [List.mapM_cons] at h
    obtain ⟨d, hd, h⟩ := bind_eq_ok_iff.mp h
    obtain ⟨rest, hrest, h⟩ := bind_eq_ok_iff.mp h
    obtain rfl : d :: rest = ds := Except.ok.inj h
    obtain ⟨out, hout, hP⟩ := hitem fields d hd n
    have hhead : (record (make d n).1).fields? = some out := by rw [hout]; rfl
    rw [drawAll, List.map_cons, List.filterMap_cons_some hhead]
    exact .cons hP (ih hrest _)

theorem objectsOf_eq_ok {α : Type} {name : String} {convert : Fields → Import α} {fields : Fields}
    {as : List α} (h : objectsOf name convert fields = .ok as) :
    (objectsIn name fields).mapM convert = .ok as := by
  obtain ⟨items, hitems, h⟩ := bind_eq_ok_iff.mp h
  have hobjects : objectsIn name fields = items.filterMap Json.fields? := by
    unfold objectsIn
    cases hfield : fields.get? name with
    | none =>
      rw [fieldOr, hfield] at hitems
      obtain rfl := Except.ok.inj hitems
      rfl
    | some v =>
      rw [fieldOr_of_get? hfield] at hitems
      cases v with
      | arr items' =>
        obtain rfl : items' = items := Except.ok.inj hitems
        rfl
      | obj fields' =>
        obtain rfl := Except.ok.inj hitems
        simp [Json.fields?]
      | str s =>
        obtain rfl := Except.ok.inj hitems
        simp [Json.fields?]
      | brokenStr =>
        obtain rfl := Except.ok.inj hitems
        simp
      | null => cases hitems
      | bool b => cases hitems
      | int k => cases hitems
      | float x => cases hitems
  rwa [hobjects]

theorem importGraph_eq_ok {fields : Fields} {d : GraphDraft} (h : importGraph fields = .ok d) :
    objectsOf "nodes" importNode fields = .ok d.nodes := by
  obtain ⟨nodes, hnodes, h⟩ := bind_eq_ok_iff.mp h
  obtain ⟨f, ns, hf, hns, rfl⟩ := Checked.seq_eq_ok (checked_eq_ok h)
  obtain ⟨f', type, hf', -, rfl⟩ := Checked.seq_eq_ok hf
  obtain ⟨name, -, rfl⟩ := Checked.map_eq_ok hf'
  rw [hnodes, Checked.ok.inj hns]

theorem importFields_eq_ok {fields : Fields} {d : BlueprintDraft}
    (h : importFields fields = .ok d) : objectsOf "graphs" importGraph fields = .ok d.graphs := by
  unfold importFields at h
  split at h
  · cases h
  · obtain ⟨members, -, h⟩ := bind_eq_ok_iff.mp h
    obtain ⟨graphs, hgraphs, h⟩ := bind_eq_ok_iff.mp h
    obtain ⟨f₁, count, h₁, -, rfl⟩ := Checked.seq_eq_ok (checked_eq_ok h)
    obtain ⟨f₂, modified, h₂, -, rfl⟩ := Checked.seq_eq_ok h₁
    obtain ⟨f₃, gs, h₃, hgs, rfl⟩ := Checked.seq_eq_ok h₂
    obtain ⟨f₄, vs, h₄, -, rfl⟩ := Checked.seq_eq_ok h₃
    obtain ⟨f₅, parent, h₅, -, rfl⟩ := Checked.seq_eq_ok h₄
    obtain ⟨f₆, path, h₆, -, rfl⟩ := Checked.seq_eq_ok h₅
    obtain ⟨name, -, rfl⟩ := Checked.map_eq_ok h₆
    rw [hgraphs, Checked.ok.inj hgs]

theorem returned_graph {fields : Fields} {d : GraphDraft} (h : importGraph fields = .ok d)
    (n : Nat) : ∃ out, exportGraph (d.make n).1 = .obj out ∧
      List.Forall₂ Returned (objectsIn "nodes" fields) (objectsIn "nodes" out) :=
  ⟨_, rfl, forall₂_returned (fun _ _ => returned_node) (objectsOf_eq_ok (importGraph_eq_ok h))
    (n + 1)⟩

/-- A context that the import accepts comes back with an object for each of its graphs and each of
their nodes, in order. Of a node its name is kept; its class is kept if it is one of the five that the
export writes; and a member is kept under the field of the class that is written, if that has one. -/
theorem export_import (time : String) {c : Json} {d : BlueprintDraft} (h : importContext c = .ok d)
    (n : Nat) :
    ∃ fields out, c = .obj fields ∧ exportContext time (d.make n).1 = .obj out ∧
      List.Forall₂ (fun g g' => List.Forall₂ Returned (objectsIn "nodes" g) (objectsIn "nodes" g'))
        (objectsIn "graphs" fields) (objectsIn "graphs" out) := by
  cases c with
  | obj fields =>
    have hgraphs : objectsOf "graphs" importGraph fields = .ok d.graphs := importFields_eq_ok h
    exact ⟨fields, _, rfl, rfl,
      forall₂_returned (fun _ _ => returned_graph) (objectsOf_eq_ok hgraphs) _⟩
  | _ => cases h

/-- Every node of a context that the import accepts is in this relation to what comes back of it, if
all the nodes have classes. -/
def ComesBack (P : Fields → Fields → Prop) : Prop :=
  ∀ (time : String) (c : Json) (d : BlueprintDraft) (n : Nat) (fields out : Fields),
    importContext c = .ok d → c = .obj fields → exportContext time (d.make n).1 = .obj out →
    (∀ g ∈ objectsIn "graphs" fields, ∀ x ∈ objectsIn "nodes" g,
      ∃ s, s ≠ "" ∧ x.get? "class" = some (.str s)) →
    List.Forall₂ (fun g g' => List.Forall₂ P (objectsIn "nodes" g) (objectsIn "nodes" g'))
      (objectsIn "graphs" fields) (objectsIn "graphs" out)

def nodeWith (name guid className key member : String) : Fields :=
  [("name", .str name), ("guid", .str guid), ("class", .str className), (key, .str member)]

theorem hasMember_nodeWith {key member : String} (hkey : key ∈ memberKeys) (hne : member ≠ "")
    (name guid className : String) :
    HasMember key member (nodeWith name guid className key member) := by
  simp only [memberKeys, List.mem_cons, List.not_mem_nil, or_false] at hkey
  have hother {k : String} (hk : k ∈ memberKeys) (hne : k ≠ key) :
      Fields.get? k (nodeWith name guid className key member) = none := by
    simp only [memberKeys, List.mem_cons, List.not_mem_nil, or_false] at hk
    rcases hk with rfl | rfl | rfl <;> simp [nodeWith, Fields.get?_cons, hne]
  rcases hkey with rfl | rfl | rfl <;>
    exact ⟨by decide, hne, rfl, fun k hk hk' => hother hk hk'⟩

def customEvent : Fields := nodeWith "N" "G" "K2Node_CustomEvent" "eventName" "Opened"

def plainCall : Fields := nodeWith "M" "H" "K2Node" "functionName" "Open"

def oddGetter : Fields := nodeWith "L" "I" "K2Node_VariableGet" "functionName" "Open"

def doorContext : Json :=
  .obj [("name", .str "Door"), ("path", .str "/Game/Door"),
    ("graphs", .arr [.obj [("name", .str "EventGraph"),
      ("nodes", .arr [.obj customEvent, .obj plainCall, .obj oddGetter])]])]

theorem importContext_doorContext :
    importContext doorContext = .ok ⟨"Door", "/Game/Door", none, [], [⟨"EventGraph", .eventGraph,
      [⟨"N", some "G", .event, some "Opened", .zero, .zero, []⟩,
       ⟨"M", some "H", .generic, some "Open", .zero, .zero, []⟩,
       ⟨"L", some "I", .variableGet, some "Open", .zero, .zero, []⟩]⟩], false, 0⟩ := by
  rfl

theorem nodes_doorContext {P : Fields → Fields → Prop} (h : ComesBack P) :
    ∃ x y z, P customEvent x ∧ P plainCall y ∧ P oddGetter z ∧
      x.get? "class" = some (.str "K2Node_Event") ∧ y.get? "functionName" = none ∧
      z.get? "functionName" = none := by
  have hnodes := h "" doorContext _ 0 _ _ importContext_doorContext rfl rfl ?_
  · cases hnodes with
    | cons hgraph _ =>
      cases hgraph with
      | cons hx hrest =>
        cases hrest with
        | cons hy hrest =>
          cases hrest with
          | cons hz _ => exact ⟨_, _, _, hx, hy, hz, rfl, rfl, rfl⟩
  · intro g hg x hx
    obtain rfl := List.mem_singleton.mp hg
    have hx' : x ∈ [customEvent, plainCall, oddGetter] := hx
    simp only [List.mem_cons, List.not_mem_nil, or_false] at hx'
    rcases hx' with rfl | rfl | rfl
    · exact ⟨"K2Node_CustomEvent", by decide, rfl⟩
    · exact ⟨"K2Node", by decide, rfl⟩
    · exact ⟨"K2Node_VariableGet", by decide, rfl⟩

/-- Not every node keeps its class. Of those that do, not every one keeps its member, also if it is of
a class that has one. -/
theorem not_comesBack_unchanged :
    ¬ ComesBack (fun x y => y.get? "class" = x.get? "class") ∧
    ¬ ComesBack (fun x y => x.get? "class" = some (.str "K2Node") → ∀ key name,
        HasMember key name x → y.get? key = some (.str name)) ∧
    ¬ ComesBack (fun x y => x.get? "class" = some (.str "K2Node_VariableGet") → ∀ key name,
        HasMember key name x → y.get? key = some (.str name)) := by
  have hmember (name guid className : String) :
      HasMember "functionName" "Open" (nodeWith name guid className "functionName" "Open") :=
    hasMember_nodeWith (by decide) (by decide) name guid className
  refine ⟨fun h => ?_, fun h => ?_, fun h => ?_⟩
  · obtain ⟨x, y, z, hclass, -, -, hevent, -, -⟩ := nodes_doorContext h
    rw [hevent] at hclass
    have hsame : "K2Node_Event" = "K2Node_CustomEvent" := Json.str.inj (Option.some.inj hclass)
    exact absurd hsame (by decide)
  · obtain ⟨x, y, z, -, hkept, -, -, hnone, -⟩ := nodes_doorContext h
    rw [hkept rfl "functionName" "Open" (hmember ..)] at hnone
    cases hnone
  · obtain ⟨x, y, z, -, -, hkept, -, -, hnone⟩ := nodes_doorContext h
    rw [hkept rfl "functionName" "Open" (hmember ..)] at hnone
    cases hnone

/-- The event comes back under its name, as an event of the editor's. -/
theorem export_import_doorContext :
    ∃ d out, importContext doorContext = .ok d ∧ exportContext "" (d.make 0).1 = .obj out ∧
      ∃ g x, g ∈ objectsIn "graphs" out ∧ x ∈ objectsIn "nodes" g ∧ Returned customEvent x ∧
        x.get? "class" = some (.str "K2Node_Event") := by
  obtain ⟨fields, out, hfields, hout, hgraphs⟩ := export_import "" importContext_doorContext 0
  obtain rfl := Json.obj.inj hfields
  obtain ⟨g, gs, hnodes, -, hg⟩ := List.forall₂_cons_left_iff.mp hgraphs
  obtain ⟨x, xs, hx, -, hxs⟩ := List.forall₂_cons_left_iff.mp hnodes
  have hmemGraph : g ∈ objectsIn "graphs" out := hg ▸ List.mem_cons_self
  have hmemNode : x ∈ objectsIn "nodes" g := hxs ▸ List.mem_cons_self
  exact ⟨_, out, importContext_doorContext, hout, g, x, hmemGraph, hmemNode, hx,
    hx.className "K2Node_CustomEvent" rfl⟩

end Context
end BlueprintPatch

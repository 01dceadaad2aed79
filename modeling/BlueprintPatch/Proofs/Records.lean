import BlueprintPatch.Disk.JsonFile
import BlueprintPatch.Graph.Draft
import BlueprintPatch.Proofs.Ascii
import BlueprintPatch.Store.Record

/-! The record of a blueprint holds all that the blueprint holds: what is made from the record is
the content of the blueprint, and a file that the record is written to gives the record back. -/
namespace BlueprintPatch

namespace Rule

variable {α β γ : Type}

theorem itemsFrom_map {rule : Rule β} {record : α → Json} {draft : α → β}
    (h : ∀ a, rule (record a) = .ok (draft a)) (i : Nat) (as : List α) :
    itemsFrom rule i (as.map record) = .ok (as.map draft) := by
  induction as generalizing i with
  | nil => rfl
  | cons a as ih => simp [itemsFrom, h, ih, Checked.within]

theorem list_map {rule : Rule β} {record : α → Json} {draft : α → β}
    (h : ∀ a, rule (record a) = .ok (draft a)) (as : List α) :
    list rule (.arr (as.map record)) = .ok (as.map draft) := itemsFrom_map h 0 as

theorem optional_optionalText (s : Option String) : optional text (optionalText s) = .ok s := by
  cases s <;> rfl

end Rule

theorem record_check_pin (p : Pin) : Rule.record PinDraft.check p.record = .ok p.draft := by
  have htext : ∀ s, Rule.text (.str s) = .ok (id s) := fun _ => rfl
  have hlinks := Rule.list_map htext p.linkedTo
  have hdirection := PinDirection.ofName?_name p.direction
  simp [Pin.record, Rule.record, PinDraft.check, Fields.take, Fields.need, Fields.get?_cons,
    Rule.text, Rule.choice, hdirection, hlinks, Checked.within, Pin.draft]

theorem record_check_node (node : Node) :
    Rule.record NodeDraft.check node.record = .ok node.draft := by
  have hpins := Rule.list_map record_check_pin node.pins
  have hkind := NodeKind.ofName?_name node.kind
  simp [Node.record, Rule.record, NodeDraft.check, NodeDraft.checkAround, Fields.take, Fields.need,
    Fields.get?_cons, Rule.text, Rule.number, Rule.choice, hkind, Rule.optional_optionalText, hpins,
    Checked.within, Node.draft]

theorem record_check_graph (g : Graph) : Rule.record GraphDraft.check g.record = .ok g.draft := by
  have hnodes := Rule.list_map record_check_node g.nodes
  have htype := GraphType.ofName?_name g.graphType
  simp [Graph.record, Rule.record, GraphDraft.check, GraphDraft.checkAround, Fields.take,
    Fields.need, Fields.get?_cons, Rule.text, Rule.choice, htype, hnodes, Checked.within,
    Graph.draft]

theorem record_check_variable (v : Variable) :
    Rule.record VariableDraft.check v.record = .ok v.draft := by
  simp [Variable.record, Rule.record, VariableDraft.check, Fields.take, Fields.need,
    Fields.get?_cons, Rule.text, Rule.flag, Checked.within, Variable.draft]

theorem ofValue_record (b : Blueprint) : BlueprintDraft.ofValue b.record = .ok b.draft := by
  have hmembers := Rule.list_map record_check_variable b.members
  have hgraphs := Rule.list_map record_check_graph b.graphs
  simp [Blueprint.record, BlueprintDraft.ofValue, BlueprintDraft.check, BlueprintDraft.checkAround,
    Fields.take, Fields.need, Fields.get?_cons, Rule.text, Rule.flag, Rule.integer,
    Rule.optional_optionalText, hmembers, hgraphs, Checked.within, Checked.about, Blueprint.draft]

def Node.quiet (node : Node) : Node :=
  { node with posX := node.posX.quiet, posY := node.posY.quiet }

def Graph.quiet (g : Graph) : Graph := { g with nodes := g.nodes.map Node.quiet }

/-- The blueprint as it can be read from a file: positions that are no number have one form. -/
def Blueprint.quiet (b : Blueprint) : Blueprint := { b with graphs := b.graphs.map Graph.quiet }

/-- All positions are numbers, and no infinite ones. -/
def Blueprint.HasFinitePositions (b : Blueprint) : Prop :=
  ∀ g ∈ b.graphs, ∀ node ∈ g.nodes, node.posX.isFinite = true ∧ node.posY.isFinite = true

theorem Binary64.quiet_of_isFinite {x : Binary64} (h : x.isFinite = true) : x.quiet = x := by
  have hlt : x.magnitude < infinite := by simpa [isFinite] using h
  have hnan : ¬ infinite < x.magnitude := by omega
  simp [quiet, isNaN, hnan]

theorem Blueprint.quiet_of_finite {b : Blueprint} (h : b.HasFinitePositions) : b.quiet = b := by
  have hnode : ∀ g ∈ b.graphs, ∀ node ∈ g.nodes, node.quiet = node := by
    intro g hg node hnode
    obtain ⟨hx, hy⟩ := h g hg node hnode
    rw [Node.quiet, Binary64.quiet_of_isFinite hx, Binary64.quiet_of_isFinite hy]
  have hgraph : ∀ g ∈ b.graphs, g.quiet = g := by
    intro g hg
    rw [Graph.quiet, (List.map_congr_left (hnode g hg)).trans (List.map_id' g.nodes)]
  rw [Blueprint.quiet, (List.map_congr_left hgraph).trans (List.map_id' b.graphs)]

namespace Json

theorem quietItems_map {α : Type} {record record' : α → Json} {as : List α}
    (h : ∀ a ∈ as, (record a).quiet = record' a) :
    quietItems (as.map record) = as.map record' := by
  induction as with
  | nil => rfl
  | cons a as ih =>
    have htail := ih fun b hb => h b (List.mem_cons_of_mem a hb)
    simp [quietItems, h a List.mem_cons_self, htail]

theorem plainItems_map {α : Type} {depth : Nat} {record : α → Json} {as : List α}
    (h : ∀ a ∈ as, Plain depth (record a)) : PlainItems depth (as.map record) := by
  induction as with
  | nil => trivial
  | cons a as ih =>
    exact ⟨h a List.mem_cons_self, ih fun b hb => h b (List.mem_cons_of_mem a hb)⟩

end Json

open Json

theorem quiet_optionalText (s : Option String) : (optionalText s).quiet = optionalText s := by
  cases s <;> rfl

theorem quiet_record_pin (p : Pin) : p.record.quiet = p.record := by
  have hlinks : quietItems (p.linkedTo.map .str) = p.linkedTo.map .str :=
    quietItems_map fun _ _ => rfl
  simp [Pin.record, quiet, quietFields, hlinks]

theorem quiet_record_node (node : Node) : node.record.quiet = node.quiet.record := by
  have hpins := quietItems_map fun p (_ : p ∈ node.pins) => quiet_record_pin p
  simp [Node.record, Node.quiet, quiet, quietFields, quiet_optionalText, hpins]

theorem quiet_record_graph (g : Graph) : g.record.quiet = g.quiet.record := by
  have hnodes := quietItems_map fun node (_ : node ∈ g.nodes) => quiet_record_node node
  simp [Graph.record, Graph.quiet, quiet, quietFields, hnodes]

theorem quiet_record (b : Blueprint) : b.record.quiet = b.quiet.record := by
  have hmembers : quietItems (b.members.map Variable.record) = b.members.map Variable.record :=
    quietItems_map fun _ _ => rfl
  have hgraphs := quietItems_map fun g (_ : g ∈ b.graphs) => quiet_record_graph g
  simp [Blueprint.record, Blueprint.quiet, quiet, quietFields, quiet_optionalText, hmembers,
    hgraphs]

theorem plain_optionalText (depth : Nat) (s : Option String) : Plain depth (optionalText s) := by
  cases s <;> trivial

theorem plain_record_pin (depth : Nat) (p : Pin) : Plain (depth + 2) p.record := by
  have hlinks : PlainItems depth (p.linkedTo.map .str) := plainItems_map fun _ _ => trivial
  simpa [Pin.record, Plain, PlainFields] using hlinks

theorem plain_record_node (depth : Nat) (node : Node) : Plain (depth + 4) node.record := by
  have hpins := plainItems_map fun p (_ : p ∈ node.pins) => plain_record_pin depth p
  simpa [Node.record, Plain, PlainFields, plain_optionalText] using hpins

theorem plain_record_graph (depth : Nat) (g : Graph) : Plain (depth + 6) g.record := by
  have hnodes := plainItems_map fun node (_ : node ∈ g.nodes) => plain_record_node depth node
  simpa [Graph.record, Plain, PlainFields] using hnodes

theorem plain_record_variable (depth : Nat) (v : Variable) : Plain (depth + 1) v.record := by
  simp [Variable.record, Plain, PlainFields]

theorem plain_record (depth : Nat) {b : Blueprint}
    (h : b.modificationCount.natAbs < pow10 maxDigits) : Plain (depth + 8) b.record := by
  have hmembers := plainItems_map fun v (_ : v ∈ b.members) => plain_record_variable (depth + 5) v
  have hgraphs := plainItems_map fun g (_ : g ∈ b.graphs) => plain_record_graph depth g
  simpa [Blueprint.record, Plain, PlainFields, plain_optionalText, h] using ⟨hmembers, hgraphs⟩

theorem mem_intercalate {α : Type} {a : α} {as : List α} {items : List (List α)} (sep : List α)
    (ha : a ∈ as) (h : as ∈ items) : a ∈ sep.intercalate items := by
  induction items with
  | nil => cases h
  | cons first items ih =>
    cases items with
    | nil =>
      obtain rfl := List.mem_singleton.mp h
      simpa using ha
    | cons next items =>
      rw [List.intercalate_cons_cons, List.mem_append, List.mem_append]
      rcases List.mem_cons.mp h with rfl | h
      · exact .inl (.inl ha)
      · exact .inr (ih h)

theorem mem_tokens_of_field {style : Style} {level : Nat} (name : String) {n : Int}
    {fields : Fields} (h : (name, Json.int n) ∈ fields) :
    Token.integer n ∈ tokens style level (.obj fields) := by
  have hfield : [.text (writeString name ++ [':', ' ']), .integer n] ∈
      fieldTokens style (level + 1) fields := by
    induction fields with
    | nil => cases h
    | cons p fields ih =>
      rcases List.mem_cons.mp h with rfl | h
      · exact List.mem_cons_self
      · exact List.mem_cons_of_mem _ (ih h)
  have hne : (fieldTokens style (level + 1) fields).isEmpty = false :=
    List.isEmpty_eq_false_iff.mpr (List.ne_nil_of_mem hfield)
  have hjoin := fun sep => mem_intercalate (a := Token.integer n) sep (by simp) hfield
  cases style <;> simp [tokens, bracketed, hne, hjoin]

theorem count_of_isWritable {style : Style} {b : Blueprint} (h : b.record.isWritable style = true) :
    b.modificationCount.natAbs < pow10 maxDigits := by
  have hmem : Token.integer b.modificationCount ∈ tokens style 0 b.record :=
    mem_tokens_of_field "modification_count" (by simp)
  have hshort := List.all_eq_true.mp h _ hmem
  simpa [Token.isOversized] using hshort

theorem read_record {style : Style} {b : Blueprint} (h : b.record.isWritable style = true) :
    Disk.textOf (.text (b.record.writeFront style)) = .ok (b.record.writeFront style) ∧
      Json.read (b.record.writeFront style) = .ok b.quiet.record := by
  have hplain : Plain maxDepth b.record := plain_record (maxDepth - 8) (count_of_isWritable h)
  rw [writeFront_of_isWritable h]
  exact ⟨textOf_write style b.record, quiet_record b ▸ read_write hplain style⟩

end BlueprintPatch

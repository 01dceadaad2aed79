import BlueprintPatch.Patch.Document
import Mathlib.Data.List.Sort

/-! What a patch document makes of its text. Every text is malformed, or holds no operation, or
holds operations, and the document says which. The operations of a list are the objects in it, each
with its own place, whatever stands between them. -/
namespace BlueprintPatch.Document

def code? (d : Document) : Option ErrorCode := d.error.map DocumentError.code

/-- The text does not decode, or what it decodes to is no object. -/
def Malformed (text : String) : Prop :=
  (∃ fault, Json.read text = .error fault) ∨ ∃ v, Json.read text = .ok v ∧ v.fields? = none

/-- The operations are the objects of an array, in order and with their places. Anything but an
array has none. -/
structure Lists (v : Json) (operations : List RawOperation) : Prop where
  ordered : operations.Pairwise fun a b => a.index < b.index
  mem_iff : ∀ op, op ∈ operations ↔
    ∃ elements, v = .arr elements ∧ elements[op.index]? = some (.obj op.fields)

/-- What a document takes from an object: the operations of its list, or else the object itself if
it has a type, and the metadata if they are an object. -/
structure Holds (fields : Fields) (d : Document) : Prop where
  listed : ∀ v, fields.get? "operations" = some v → Lists v d.operations
  single : fields.get? "operations" = none → fields.has "type" = true →
    d.operations = [⟨0, fields⟩]
  neither : fields.get? "operations" = none → fields.has "type" = false → d.operations = []
  metadata : ∀ found, fields.get? "metadata" = some (.obj found) → d.metadata = found
  noMetadata : (∀ found, fields.get? "metadata" ≠ some (.obj found)) → d.metadata = []

/-- What a document has to say of a text. -/
structure Describes (text : String) (d : Document) : Prop where
  malformed_iff : d.code? = some .malformedJson ↔ Malformed text
  empty_iff : d.code? = some .emptyPatch ↔ ¬ Malformed text ∧ d.operations = []
  accepted_iff : d.error = none ↔ d.operations ≠ []
  malformed : Malformed text → d.operations = [] ∧ d.metadata = []
  holds : ∀ fields, Json.read text = .ok (.obj fields) → Holds fields d

theorem malformed_iff {text : String} :
    Malformed text ↔ ∀ fields, Json.read text ≠ .ok (.obj fields) := by
  unfold Malformed
  cases hread : Json.read text with
  | error fault => simp
  | ok v => cases v <;> simp [Json.fields?]

theorem exists_fields {text : String} (h : ¬ Malformed text) :
    ∃ fields, Json.read text = .ok (.obj fields) := by
  simpa [malformed_iff] using h

theorem fields?_eq_some {v : Json} {fields : Fields} :
    v.fields? = some fields ↔ v = .obj fields := by
  cases v <;> simp [Json.fields?]

theorem mem_operationsOf {elements : List Json} {op : RawOperation} :
    op ∈ operationsOf elements ↔ elements[op.index]? = some (.obj op.fields) := by
  rw [operationsOf, List.mem_filterMap]
  constructor
  · rintro ⟨⟨v, i⟩, hmem, hop⟩
    obtain ⟨fields, hfields, rfl⟩ := Option.map_eq_some_iff.mp hop
    obtain rfl := fields?_eq_some.mp hfields
    exact List.mk_mem_zipIdx_iff_getElem?.mp hmem
  · intro hop
    exact ⟨(.obj op.fields, op.index), List.mk_mem_zipIdx_iff_getElem?.mpr hop, rfl⟩

theorem operationsOf_pairwise (elements : List Json) :
    (operationsOf elements).Pairwise fun a b => a.index < b.index := by
  have hplaces : elements.zipIdx.Pairwise fun p q => p.2 < q.2 := by
    apply List.pairwise_map.mp
    rw [List.zipIdx_map_snd]
    exact List.pairwise_lt_range'
  refine hplaces.filterMap _ fun p q hlt a ha b hb => ?_
  obtain ⟨_, -, rfl⟩ := Option.map_eq_some_iff.mp ha
  obtain ⟨_, -, rfl⟩ := Option.map_eq_some_iff.mp hb
  exact hlt

theorem lists_operationsOf (elements : List Json) :
    Lists (.arr elements) (operationsOf elements) where
  ordered := operationsOf_pairwise elements
  mem_iff op := by
    rw [mem_operationsOf]
    simp

/-- The places tell the operations of a list apart, so they are as they are in one way only. -/
theorem Lists.unique {v : Json} {operations others : List RawOperation} (h : Lists v operations)
    (h' : Lists v others) : operations = others := by
  have hirrefl : Std.Irrefl fun a b : RawOperation => a.index < b.index :=
    ⟨fun _ => Nat.lt_irrefl _⟩
  have hantisymm : Std.Antisymm fun a b : RawOperation => a.index < b.index :=
    ⟨fun _ _ hlt hgt => absurd hlt (Nat.lt_asymm hgt)⟩
  exact h.ordered.eq_of_mem_iff h'.ordered fun op => (h.mem_iff op).trans (h'.mem_iff op).symm

theorem lists_rawOperations {fields : Fields} {v : Json} (h : fields.get? "operations" = some v) :
    Lists v (rawOperations fields) := by
  rw [rawOperations, h]
  cases v with
  | arr elements => exact lists_operationsOf elements
  | _ => exact ⟨.nil, by simp⟩

theorem rawOperations_of_none {fields : Fields} (h : fields.get? "operations" = none) :
    rawOperations fields = if fields.has "type" then [⟨0, fields⟩] else [] := by
  rw [rawOperations, h]

theorem metadataOf_eq_nil {fields : Fields}
    (h : ∀ found, fields.get? "metadata" ≠ some (.obj found)) : metadataOf fields = [] := by
  rw [metadataOf]
  cases hfound : Fields.get? "metadata" fields with
  | none => rfl
  | some v =>
    cases v with
    | obj found => exact absurd hfound (h found)
    | _ => rfl

theorem holds_ofFields (fields : Fields) : Holds fields (ofFields fields) where
  listed _ hlist := lists_rawOperations hlist
  single hlist htype := (rawOperations_of_none hlist).trans (if_pos htype)
  neither hlist htype := (rawOperations_of_none hlist).trans (if_neg (by simp [htype]))
  metadata found hfound := by
    simp [ofFields, metadataOf, hfound, Json.fields?]
  noMetadata hnone := metadataOf_eq_nil hnone

theorem Holds.operations_eq {fields : Fields} {d e : Document} (h : Holds fields d)
    (h' : Holds fields e) : d.operations = e.operations := by
  cases hlist : Fields.get? "operations" fields with
  | some v => exact (h.listed v hlist).unique (h'.listed v hlist)
  | none =>
    cases htype : Fields.has "type" fields with
    | true => rw [h.single hlist htype, h'.single hlist htype]
    | false => rw [h.neither hlist htype, h'.neither hlist htype]

theorem Holds.metadata_eq {fields : Fields} {d e : Document} (h : Holds fields d)
    (h' : Holds fields e) : d.metadata = e.metadata := by
  by_cases hobject : ∃ found, Fields.get? "metadata" fields = some (.obj found)
  · obtain ⟨found, hfound⟩ := hobject
    rw [h.metadata found hfound, h'.metadata found hfound]
  · have hnone := not_exists.mp hobject
    rw [h.noMetadata hnone, h'.noMetadata hnone]

variable {text : String}

theorem describes_failed {x : DocumentError} (hcode : x.code = .malformedJson)
    (h : Malformed text) : Describes text (failed x) := by
  have hcode? : (failed x).code? = some .malformedJson := by
    rw [code?, failed, Option.map_some, hcode]
  exact {
    malformed_iff := by simp [hcode?, h]
    empty_iff := by simp [hcode?, h]
    accepted_iff := by simp [failed]
    malformed := fun _ => ⟨rfl, rfl⟩
    holds := fun fields hread => absurd hread (malformed_iff.mp h fields) }

theorem error_ofFields (fields : Fields) :
    (ofFields fields).error = if rawOperations fields = [] then some .noOperations else none := by
  simp [ofFields]

theorem describes_ofFields {fields : Fields} (h : Json.read text = .ok (.obj fields)) :
    Describes text (ofFields fields) := by
  have hwell : ¬ Malformed text := fun hmalformed => malformed_iff.mp hmalformed fields h
  have hoperations : (ofFields fields).operations = rawOperations fields := rfl
  refine ⟨?_, ?_, ?_, fun hmalformed => absurd hmalformed hwell, fun found hfound => ?_⟩
  · rw [code?, error_ofFields]
    split <;> simp [DocumentError.code, hwell]
  · rw [code?, error_ofFields, hoperations]
    split
    · next hnil => simp [DocumentError.code, hwell, hnil]
    · next hcons => simp [hcons]
  · rw [error_ofFields, hoperations]
    split
    · next hnil => simp [hnil]
    · next hcons => simp [hcons]
  · obtain rfl := Json.obj.inj (Except.ok.inj (h.symm.trans hfound))
    exact holds_ofFields fields

theorem describes_ofValue (text : String) : Describes text (ofValue (.str text)) := by
  rw [ofValue_str]
  cases hread : Json.read text with
  | error fault => exact describes_failed rfl (.inl ⟨fault, hread⟩)
  | ok v =>
    cases v with
    | obj fields => exact describes_ofFields hread
    | _ => exact describes_failed rfl (.inr ⟨_, hread, rfl⟩)

namespace Describes

variable {d e : Document}

theorem operations_eq (h : Describes text d) (h' : Describes text e) :
    d.operations = e.operations := by
  by_cases hmalformed : Malformed text
  · rw [(h.malformed hmalformed).1, (h'.malformed hmalformed).1]
  · obtain ⟨fields, hread⟩ := exists_fields hmalformed
    exact (h.holds fields hread).operations_eq (h'.holds fields hread)

theorem metadata_eq (h : Describes text d) (h' : Describes text e) : d.metadata = e.metadata := by
  by_cases hmalformed : Malformed text
  · rw [(h.malformed hmalformed).2, (h'.malformed hmalformed).2]
  · obtain ⟨fields, hread⟩ := exists_fields hmalformed
    exact (h.holds fields hread).metadata_eq (h'.holds fields hread)

theorem code?_eq (h : Describes text d) (h' : Describes text e) : d.code? = e.code? := by
  by_cases hmalformed : Malformed text
  · rw [h.malformed_iff.mpr hmalformed, h'.malformed_iff.mpr hmalformed]
  · have hoperations := h.operations_eq h'
    by_cases hnil : d.operations = []
    · rw [h.empty_iff.mpr ⟨hmalformed, hnil⟩, h'.empty_iff.mpr ⟨hmalformed, hoperations ▸ hnil⟩]
    · rw [code?, code?, h.accepted_iff.mpr hnil, h'.accepted_iff.mpr (hoperations ▸ hnil)]

end Describes

/-- Every text is classified: its document is malformed, empty or accepted as the text says, and
the text leaves nothing open about the operations, the metadata and the error. -/
theorem classifies (text : String) :
    Describes text (ofValue (.str text)) ∧
    ∀ d, Describes text d → d.operations = (ofValue (.str text)).operations ∧
      d.metadata = (ofValue (.str text)).metadata ∧ d.code? = (ofValue (.str text)).code? := by
  have hdescribes := describes_ofValue text
  exact ⟨hdescribes, fun d hd =>
    ⟨hd.operations_eq hdescribes, hd.metadata_eq hdescribes, hd.code?_eq hdescribes⟩⟩

def mixedList : String :=
  "\x7b\"operations\":[7,\x7b\"type\":\"a\"\x7d,[],\x7b\x7d],\"metadata\":\x7b\"by\":null\x7d\x7d"

set_option maxRecDepth 8000 in
/-- The objects keep the places one and three. -/
theorem classifies_mixedList :
    Json.read mixedList = .ok (.obj
      [("operations", .arr [.int 7, .obj [("type", .str "a")], .arr [], .obj []]),
        ("metadata", .obj [("by", .null)])]) ∧
    (ofValue (.str mixedList)).operations = [⟨1, [("type", .str "a")]⟩, ⟨3, []⟩] ∧
    (ofValue (.str mixedList)).metadata = [("by", .null)] ∧
    (ofValue (.str mixedList)).error = none := by
  have hread : Json.read mixedList = .ok (.obj
      [("operations", .arr [.int 7, .obj [("type", .str "a")], .arr [], .obj []]),
        ("metadata", .obj [("by", .null)])]) := by rfl
  have hdescribes := (classifies mixedList).1
  have hholds := hdescribes.holds _ hread
  have hoperations := (hholds.listed _ rfl).unique (lists_operationsOf _)
  refine ⟨hread, hoperations, hholds.metadata _ rfl, hdescribes.accepted_iff.mpr ?_⟩
  rw [hoperations]
  exact List.cons_ne_nil _ _

end BlueprintPatch.Document

import BlueprintPatch.Proofs.Outcomes

/-! Versions that are listed. A number is read from a name in any spelling, but looked for in one
spelling alone; so a version that is listed can be asked for if its name is spelt that way. -/
namespace BlueprintPatch

namespace Disk

variable {p : Path} {d : Disk}

/-- The document in the file nests too deep to be read. -/
def NestsTooDeep (p : Path) (d : Disk) : Prop :=
  ∃ text c, d.readJson p = .error (.json text (.tooDeep c))

instance (p : Path) (d : Disk) : Decidable (NestsTooDeep p d) :=
  decidable_of_iff ((match d.readJson p with
      | .error (.json _ (.tooDeep _)) => true
      | _ => false) = true) <| by
    unfold NestsTooDeep
    split
    · rename_i hread
      simp [hread]
    · rename_i hother
      simpa using hother

end Disk

namespace Store

open Disk

variable {base p : Path} {d : Disk} {f identifier : String} {v : Int} {versions : List Int}

/-- A question for a version is answered: with a blueprint, or that its file cannot be read. -/
def Answered (r : Except StoreError (Option BlueprintDraft)) : Prop :=
  (∃ b, r = .ok (some b)) ∨ ∃ file cause, r = .error (.unreadable file cause)

theorem answered_readDraft_iff :
    Answered ((readDraft p d).map some) ↔ ¬ NestsTooDeep p d := by
  unfold readDraft NestsTooDeep
  split
  · rename_i text c hread
    simp [Answered, Except.map, hread]
  · rename_i e hdeep hread
    simpa [Answered, Except.map, hread] using hdeep
  · rename_i value hread
    split <;> simp [Answered, Except.map, hread]

theorem answered_loadFile_iff :
    Answered (loadFile p d) ↔ d.has p = .ok true ∧ ¬ NestsTooDeep p d := by
  rw [← answered_readDraft_iff]
  unfold loadFile
  split
  · rename_i hhas
    simp [Answered, hhas]
  · rename_i hhas
    simp [Answered, hhas]
  · rename_i hhas
    simp [hhas]

/-- The version `v` is spelt in the name as the store spells it, and the file can be opened and
read. -/
structure Spelt (p : Path) (d : Disk) (name : String) (v : Int) : Prop where
  name_eq : name = versionName v
  room : Room p name
  shallow : ¬ NestsTooDeep (p.join name) d

theorem answered_load_iff (hp : Stands (directory base (key identifier)) d) :
    Answered (load base identifier (some v) d) ↔
      ∃ f ∈ namesIn (home (directory base (key identifier))) d,
        Spelt (directory base (key identifier)) d f v := by
  have hhas := has_eq_true_iff hp.open (isName_versionName v)
  have hload : load base identifier (some v) d =
      loadFile ((directory base (key identifier)).join (versionName v)) d := rfl
  rw [hload, answered_loadFile_iff, hhas]
  constructor
  · rintro ⟨⟨hroom, hmem⟩, hshallow⟩
    exact ⟨versionName v, hmem, rfl, hroom, hshallow⟩
  · rintro ⟨f, hmem, rfl, hroom, hshallow⟩
    exact ⟨⟨hroom, hmem⟩, hshallow⟩

theorem eq_of_versionOf?_eq {names : List String} {f g : String}
    (hnodup : (names.filterMap versionOf?).Nodup) (hf : f ∈ names) (hg : g ∈ names)
    (hfv : versionOf? f = some v) (hgv : versionOf? g = some v) : f = g := by
  rw [List.Nodup, List.pairwise_filterMap] at hnodup
  have hapart : names.Pairwise fun a b => ¬ (versionOf? a = some v ∧ versionOf? b = some v) :=
    hnodup.imp fun h hab => h v hab.1 v hab.2 rfl
  have hsymm : Std.Symm fun a b => ¬ (versionOf? a = some v ∧ versionOf? b = some v) :=
    ⟨fun a b h hba => h hba.symm⟩
  by_contra hne
  exact hapart.forall hf hg hne ⟨hfv, hgv⟩

theorem nodup_filterMap_versionOf? {names : List String} (hnodup : names.Nodup)
    (hspelt : ∀ f ∈ names, ∀ v, versionOf? f = some v → f = versionName v) :
    (names.filterMap versionOf?).Nodup := by
  rw [List.Nodup, List.pairwise_filterMap]
  refine hnodup.imp_of_mem fun {f g} hf hg hne v hv w hw heq => hne ?_
  rw [hspelt f hf v hv, hspelt g hg w hw, heq]

/-- Every listed version can be asked for, and none is listed twice, exactly if every name that
writes a number is spelt as the store spells it. -/
theorem listed_versions_answered_iff (hd : IsTree d)
    (h : history base identifier d = .ok versions) :
    ((∀ v ∈ versions, Answered (load base identifier (some v) d)) ∧ versions.Nodup) ↔
      ∀ names, d.list (directory base (key identifier)) = .ok names → ∀ f ∈ names, ∀ v,
        versionOf? f = some v → Spelt (directory base (key identifier)) d f v := by
  rcases history_eq_ok_iff.mp h with ⟨hp, rfl⟩ | ⟨hmissing, rfl⟩
  · have hnames := hd.nodup_namesIn (home (directory base (key identifier)))
    have hperm : (versionsIn (home (directory base (key identifier))) d).Nodup ↔
        ((namesIn (home (directory base (key identifier))) d).filterMap versionOf?).Nodup :=
      (List.mergeSort_perm _ _).nodup_iff
    rw [hperm]
    constructor
    · rintro ⟨hanswered, hnodup⟩ names hlist f hf v hv
      obtain rfl := (list_eq_ok_iff.mp hlist).2
      obtain ⟨g, hg, hspelt⟩ :=
        (answered_load_iff hp).mp (hanswered v (mem_versionsIn_iff.mpr ⟨f, hf, hv⟩))
      have hgv : versionOf? g = some v := by rw [hspelt.name_eq, versionOf?_versionName]
      rwa [eq_of_versionOf?_eq hnodup hf hg hv hgv]
    · intro hspelt
      have hspelt := hspelt _ (list_eq_ok_iff.mpr ⟨hp, rfl⟩)
      refine ⟨fun v hv => ?_, nodup_filterMap_versionOf? hnames fun f hf v hv =>
        (hspelt f hf v hv).name_eq⟩
      obtain ⟨f, hf, hfv⟩ := mem_versionsIn_iff.mp hv
      exact (answered_load_iff hp).mpr ⟨f, hf, hspelt f hf v hfv⟩
  · refine ⟨fun _ names hlist => ?_, fun _ => by simp⟩
    rw [hasDirectory_eq_true_iff.mpr (list_eq_ok_iff.mp hlist).1] at hmissing
    cases hmissing

/-- Two versions of the lamp, the second one cut short. -/
def cutShort : Disk :=
  lampFiles [("v1.json", "\x7b\"name\": \"Lamp\"\x7d"), ("v2.json", "\x7b\"name\": ")]

theorem listed_versions_answered_cutShort :
    IsTree cutShort ∧ history blueprints "Game_Lamp" cutShort = .ok [1, 2] ∧
      ∀ v ∈ [1, 2], Answered (load blueprints "Game_Lamp" (some v) cutShort) := by
  have htree : IsTree cutShort := by decide +kernel
  have hhistory : history blueprints "Game_Lamp" cutShort = .ok [1, 2] :=
    history_of_sorted ⟨by decide +kernel, by decide +kernel⟩ (by decide +kernel) (by decide)
  have hnames : namesIn (home (directory blueprints (key "Game_Lamp"))) cutShort =
      ["v1.json", "v2.json"] := by decide +kernel
  refine ⟨htree, hhistory, ((listed_versions_answered_iff htree hhistory).mpr ?_).1⟩
  intro names hlist f hf v hv
  rw [(list_eq_ok_iff.mp hlist).2, hnames, List.mem_cons, List.mem_singleton] at hf
  rcases hf with rfl | rfl
  · obtain rfl := Option.some.inj ((by decide +kernel : some 1 = versionOf? "v1.json").trans hv)
    exact ⟨by decide +kernel, by decide +kernel, by decide +kernel⟩
  · obtain rfl := Option.some.inj ((by decide +kernel : some 2 = versionOf? "v2.json").trans hv)
    exact ⟨by decide +kernel, by decide +kernel, by decide +kernel⟩

/-- A version that is listed but not found, and one that is listed twice. -/
theorem padded_version_missing :
    let d := lampFiles [("v01.json", "\x7b\x7d")]
    let d' := lampFiles [("v1.json", "\x7b\x7d"), ("v01.json", "\x7b\x7d")]
    IsTree d ∧ history blueprints "Game_Lamp" d = .ok [1] ∧
      load blueprints "Game_Lamp" (some 1) d = .ok none ∧
      IsTree d' ∧ history blueprints "Game_Lamp" d' = .ok [1, 1] := by
  intro d d'
  refine ⟨by decide +kernel, ?_, by decide +kernel, by decide +kernel, ?_⟩
  · exact history_of_sorted ⟨by decide +kernel, by decide +kernel⟩ (by decide +kernel) (by decide)
  · exact history_of_sorted ⟨by decide +kernel, by decide +kernel⟩ (by decide +kernel) (by decide)

end Store

end BlueprintPatch

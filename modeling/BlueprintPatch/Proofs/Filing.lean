import BlueprintPatch.Proofs.Records
import BlueprintPatch.Proofs.Versions

/-! What a save and a deletion do to the files of the store. Both stay below the directory of the
key; a save leaves all files there alone but the new version, the current state and the index. -/
namespace BlueprintPatch.Store

open Disk

variable {base : Path} {k : String} {d d' d'' : Disk} {names names' : List String}

/-- Below the directory of the key, no files but those with the names have been changed, and
nothing elsewhere. -/
structure Changes (base : Path) (k : String) (names : List String) (d d' : Disk) : Prop where
  within : Within (home base ++ [k]) d d'
  spares : ∀ f c, f ∉ names → Holds base k f c d → Holds base k f c d'

theorem Changes.refl (base : Path) (k : String) (d : Disk) : Changes base k names d d where
  within := Within.refl _ d
  spares _ _ _ h := h

theorem Changes.trans (h : Changes base k names d d') (h' : Changes base k names d' d'') :
    Changes base k names d d'' where
  within := h.within.trans h'.within
  spares f c hf hc := h'.spares f c hf (h.spares f c hf hc)

theorem Changes.mono (h : Changes base k names d d') (hnames : names ⊆ names') :
    Changes base k names' d d' where
  within := h.within
  spares f c hf hc := h.spares f c (fun hmem => hf (hnames hmem)) hc

theorem Changes.open (h : Changes base k names d d') (hk : Apart base k) (hp : Open base d) :
    Open base d' := hp.of_within hk h.within

theorem changes_makeAll (hp : Open base d) (hk : IsName k) :
    Changes base k names d (d.makeAll (base.join k)).1 := by
  have hmake := makeAll_join hp hk
  refine ⟨hmake.1, fun f c _ hc => ?_⟩
  rwa [hmake.2 hc.directory]

/-- The file holds the record in full. -/
structure Stored (base : Path) (k f : String) (v : Json) (d : Disk) : Prop where
  isWritable : v.isWritable .spread = true
  holds : Holds base k f (.text (v.writeFront .spread)) d

theorem changes_write {f text : String} (hp : Open base d) (hk : IsName k) (hf : IsName f)
    (h : d.write ((base.join k).join f) text = .ok d') :
    Changes base k [f] d d' ∧ Holds base k f (.text text) d' := by
  obtain ⟨hwithin, hholds⟩ := holds_of_write hp hk hf h
  have hbelow : home base ++ [k] <+: home base ++ [k, f] :=
    (List.prefix_append_right_inj (home base)).mpr (by simp)
  refine ⟨⟨hwithin.above hbelow, fun g c hg hc => hc.of_within hwithin ?_⟩, hholds⟩
  intro hsame
  have heq := (List.prefix_append_right_inj (home base)).mp hsame
  simp_all

theorem changes_writeJson {f : String} {v : Json} {r : Except FileWriteError Unit}
    (hp : Open base d) (hk : IsName k) (hf : IsName f)
    (h : d.writeJson ((base.join k).join f) v = (d', r)) :
    Changes base k [f] d d' ∧ (r = .ok () → Stored base k f v d') := by
  simp only [writeJson] at h
  split at h
  · obtain ⟨rfl, rfl⟩ := Prod.mk.inj h
    exact ⟨.refl base k d, by simp⟩
  · rename_i hwrite
    obtain ⟨rfl, rfl⟩ := Prod.mk.inj h
    obtain ⟨hchanges, hholds⟩ := changes_write hp hk hf hwrite
    refine ⟨hchanges, fun hr => ⟨?_, hholds⟩⟩
    by_contra hlong
    simp [hlong] at hr

theorem changes_writeAll (files : List (String × Json)) {r : Except FileWriteError Unit}
    (hk : Apart base k) (hp : Open base d) (hnames : ∀ x ∈ files, IsName x.1)
    (hnodup : (files.map Prod.fst).Nodup)
    (h : writeAll (files.map fun x => ((base.join k).join x.1, x.2)) d = (d', r)) :
    Changes base k (files.map Prod.fst) d d' ∧
      (r = .ok () → ∀ x ∈ files, Stored base k x.1 x.2 d') := by
  induction files generalizing d with
  | nil =>
    obtain ⟨rfl, rfl⟩ := Prod.mk.inj h
    exact ⟨.refl base k d, by simp⟩
  | cons x files ih =>
    obtain ⟨f, v⟩ := x
    rw [List.map_cons, List.nodup_cons] at hnodup
    have hf : IsName f := hnames (f, v) List.mem_cons_self
    simp only [List.map_cons, writeAll] at h
    split at h
    · rename_i d₁ e hwrite
      obtain ⟨rfl, rfl⟩ := Prod.mk.inj h
      have hfirst := (changes_writeJson hp hk.isName hf hwrite).1
      exact ⟨hfirst.mono (by simp), by simp⟩
    · rename_i d₁ hwrite
      obtain ⟨hfirst, hstored⟩ := changes_writeJson hp hk.isName hf hwrite
      obtain ⟨hrest, hall⟩ := ih (hfirst.open hk hp)
        (fun x hx => hnames x (List.mem_cons_of_mem _ hx)) hnodup.2 h
      refine ⟨(hfirst.mono (by simp)).trans (hrest.mono (by simp)), fun hr x hx => ?_⟩
      rcases List.mem_cons.mp hx with rfl | hx
      · have hv := hstored rfl
        exact ⟨hv.isWritable, hrest.spares _ _ hnodup.1 hv.holds⟩
      · exact hall hr x hx

theorem key_keyFor (b : Blueprint) : key (keyFor b) = keyFor b := key_key _

def savedNames (n : Int) : List String := [versionName n, "current.json", "index.json"]

theorem nodup_savedNames (n : Int) : (savedNames n).Nodup := by
  have hcurrent : versionName n ≠ "current.json" := versionName_ne (by decide) n
  have hindex : versionName n ≠ "index.json" := versionName_ne (by decide) n
  simp [savedNames, hcurrent, hindex]

theorem changes_writeSaved {b : Blueprint} {n : Int} {entry : Json} {r : Except FileWriteError Unit}
    (hk : Apart base k) (hp : Open base d)
    (h : writeAll [(versionFile base k n, b.record), (currentFile base k, b.record),
      (indexFile base k, entry)] d = (d', r)) :
    Changes base k (savedNames n) d d' ∧
      (r = .ok () → Stored base k (versionName n) b.record d' ∧
        Stored base k "current.json" b.record d') := by
  let files : List (String × Json) :=
    [(versionName n, b.record), ("current.json", b.record), ("index.json", entry)]
  have hnames : ∀ x ∈ files, IsName x.1 := by
    simp [files, isName_versionName, isName_current, isName_index]
  obtain ⟨hchanges, hstored⟩ :=
    changes_writeAll files hk hp hnames (nodup_savedNames n) h
  refine ⟨hchanges, fun hr => ⟨?_, ?_⟩⟩
  · exact hstored hr (versionName n, b.record) (by simp [files])
  · exact hstored hr ("current.json", b.record) (by simp [files])

/-- What a save does: nothing, or it writes a version with a number above all that are there. -/
theorem save_cases {time : String} {b : Blueprint} {r : Except StoreError Int} (hp : Open base d)
    (hk : Apart base (keyFor b)) (h : save base time b d = (d', r)) :
    (d' = d ∧ ∃ e, r = .error e) ∨
    ∃ n, (∀ m c, Holds base (keyFor b) (versionName m) c d → m < n) ∧
      Changes base (keyFor b) (savedNames n) d d' ∧
      ∀ m, r = .ok m → m = n ∧ Stored base (keyFor b) (versionName n) b.record d' ∧
        Stored base (keyFor b) "current.json" b.record d' := by
  unfold save at h
  simp only at h
  split at h
  · rename_i e _
    obtain ⟨rfl, rfl⟩ := Prod.mk.inj h
    exact .inl ⟨rfl, e, rfl⟩
  · rename_i versions hversions
    right
    refine ⟨nextVersion versions, fun m c hm =>
      lt_nextVersion_of_holds hm hp hk.isName (key_keyFor b) hversions, ?_⟩
    generalize nextVersion versions = n at h
    have hmake : Changes base (keyFor b) (savedNames n) d (d.makeAll (directory base (keyFor b))).1 :=
      changes_makeAll hp hk.isName
    split at h
    · rename_i hmade
      rw [hmade] at hmake
      obtain ⟨rfl, rfl⟩ := Prod.mk.inj h
      exact ⟨hmake, by simp⟩
    · rename_i hmade
      rw [hmade] at hmake
      have hopen := hmake.open hk hp
      split at h
      · rename_i hwrite
        obtain ⟨rfl, rfl⟩ := Prod.mk.inj h
        exact ⟨hmake.trans (changes_writeSaved hk hopen hwrite).1, by simp⟩
      · rename_i hwrite
        obtain ⟨rfl, rfl⟩ := Prod.mk.inj h
        exact ⟨hmake.trans (changes_writeSaved hk hopen hwrite).1, by simp⟩
      · rename_i hwrite
        obtain ⟨rfl, rfl⟩ := Prod.mk.inj h
        obtain ⟨hchanges, hstored⟩ := changes_writeSaved hk hopen hwrite
        exact ⟨hmake.trans hchanges, fun m hm => ⟨(Except.ok.inj hm).symm, hstored rfl⟩⟩

theorem within_delete {identifier : String} {deleted : Bool} (hp : Open base d)
    (hk : IsName (key identifier)) (h : delete base identifier d = .ok (d', deleted)) :
    Within (home base ++ [key identifier]) d d' ∧ (deleted = false → d' = d) := by
  unfold delete at h
  simp only [directory] at h
  split at h
  · simp at h
  · obtain ⟨rfl, rfl⟩ := Prod.mk.inj (Except.ok.inj h)
    exact ⟨.refl _ d, fun _ => rfl⟩
  · split at h
    · simp at h
    · rename_i hremove
      obtain ⟨rfl, rfl⟩ := Prod.mk.inj (Except.ok.inj h)
      exact ⟨within_removeAll hp hk hremove, by simp⟩

theorem readDraft_of_stored {f : String} {b : Blueprint} (hp : Open base d) (hk : IsName k)
    (hf : IsName f) (h : Stored base k f b.record d) :
    readDraft ((base.join k).join f) d = .ok b.quiet.draft := by
  obtain ⟨htext, hjson⟩ := read_record h.isWritable
  have hcontent := h.holds.readContent hp hk hf
  have hread : d.readJson ((base.join k).join f) = .ok b.quiet.record := by
    simp only [readJson, Disk.read, hcontent, htext, hjson]
  simp only [readDraft, hread, ofValue_record]

theorem loadFile_of_stored {f : String} {b : Blueprint} (hp : Open base d) (hk : IsName k)
    (hf : IsName f) (h : Stored base k f b.record d) :
    loadFile ((base.join k).join f) d = .ok (some b.quiet.draft) := by
  have hhas := h.holds.has hp hk hf
  simp only [loadFile, hhas, readDraft_of_stored hp hk hf h, Except.map]

end BlueprintPatch.Store

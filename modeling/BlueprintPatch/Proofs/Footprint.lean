import BlueprintPatch.Proofs.Filing

/-! What a change of the disk writes. A change that makes directories and writes files leaves every
directory and every file in its place, so paths go on leading where they lead; the files that it
does not write hold what they held. -/
namespace BlueprintPatch

namespace Disk

variable {d d' d'' : Disk} {p q : Path} {r here place : List String} {names : List String}
  {c : Content} {text : String} {F G : Path → String → Prop}

/-- What the file at that place holds, if there is one. -/
def file? (r : List String) (d : Disk) : Option Content :=
  match d.item? r with
  | some (.file c) => some c
  | _ => none

theorem file?_eq_some_iff : d.file? r = some c ↔ d.item? r = some (.file c) := by
  simp only [file?]
  split <;> simp_all

/-- The paths lead to one place. -/
def Meet (p q : Path) (d : Disk) : Prop := ∃ r, d.locate p = .ok r ∧ d.locate q = .ok r

theorem readContent_eq_ok_iff :
    d.readContent p = .ok c ↔ ∃ r, d.locate p = .ok r ∧ d.file? r = some c := by
  cases hlocate : d.locate p with
  | error e => simp [readContent, hlocate, bind, Except.bind]
  | ok r =>
    simp only [readContent, hlocate, bind, Except.bind, failAt, file?, Except.ok.injEq,
      exists_eq_left']
    split <;> simp_all

/-- The second disk comes from the first by making directories and by writing files, each with a
path and a text as in `F`. -/
structure Wrote (F : Path → String → Prop) (d d' : Disk) : Prop where
  directory : ∀ {r}, d.item? r = some .directory → d'.item? r = some .directory
  kept : ∀ {r c}, d.file? r = some c → ∃ c', d'.file? r = some c'
  file : ∀ {r c}, d'.file? r = some c →
    d.file? r = some c ∨ ∃ p text, F p text ∧ d'.locate p = .ok r ∧ c = .text text

/-- No file has been created, changed or removed. -/
def SameFiles (d d' : Disk) : Prop := ∀ r, d'.file? r = d.file? r

theorem Wrote.refl (F : Path → String → Prop) (d : Disk) : Wrote F d d where
  directory h := h
  kept h := ⟨_, h⟩
  file h := .inl h

theorem Wrote.mono (h : Wrote F d d') (hFG : ∀ p text, F p text → G p text) : Wrote G d d' where
  directory := h.directory
  kept := h.kept
  file hr := (h.file hr).imp_right fun ⟨p, text, hF, hrest⟩ => ⟨p, text, hFG p text hF, hrest⟩

theorem follow_concat_eq_ok_iff {name : String} :
    d.follow here (names ++ [name]) = .ok r ↔ ∃ place, d.follow here names = .ok place ∧
      d.item? place = some .directory ∧ enter place name = .ok r := by
  rw [follow_append]
  cases hplace : d.follow here names with
  | error e => simp [Except.bind]
  | ok place =>
    simp only [Except.bind, Disk.follow, Except.ok.injEq, exists_eq_left']
    split
    · simp_all
    · simp_all
    · split <;> simp_all

theorem follow_of_directories
    (h : ∀ {r}, d.item? r = some .directory → d'.item? r = some .directory)
    (hd : d.follow here names = .ok place) : d'.follow here names = .ok place := by
  induction names generalizing here with
  | nil => exact hd
  | cons name rest ih =>
    simp only [Disk.follow] at hd ⊢
    split at hd
    · simp at hd
    · simp at hd
    · rename_i hhere
      rw [h hhere]
      split at hd
      · simp at hd
      · exact ih hd

theorem locate_of_directories
    (h : ∀ {r}, d.item? r = some .directory → d'.item? r = some .directory)
    (hd : d.locate p = .ok r) : d'.locate p = .ok r := by
  obtain ⟨hnull, hlong, hfollow⟩ := locate_eq_ok.mp hd
  exact locate_eq_ok.mpr ⟨hnull, hlong, follow_of_directories h hfollow⟩

theorem Wrote.locate (h : Wrote F d d') (hd : d.locate p = .ok r) : d'.locate p = .ok r :=
  locate_of_directories h.directory hd

theorem Wrote.meet (h : Wrote F d d') (hd : d.Meet p q) : d'.Meet p q := by
  obtain ⟨r, hp, hq⟩ := hd
  exact ⟨r, h.locate hp, h.locate hq⟩

theorem Wrote.trans (h : Wrote F d d') (h' : Wrote F d' d'') : Wrote F d d'' where
  directory hr := h'.directory (h.directory hr)
  kept hr := by
    obtain ⟨c, hc⟩ := h.kept hr
    exact h'.kept hc
  file hr := by
    rcases h'.file hr with hr | hwritten
    · rcases h.file hr with hr | ⟨p, text, hF, hlocate, hc⟩
      · exact .inl hr
      · exact .inr ⟨p, text, hF, h'.locate hlocate, hc⟩
    · exact .inr hwritten

theorem Wrote.readContent (h : Wrote F d d') (hc : d.readContent p = .ok c)
    (hF : ∀ q text, F q text → ¬ d'.Meet p q) : d'.readContent p = .ok c := by
  obtain ⟨r, hlocate, hfile⟩ := readContent_eq_ok_iff.mp hc
  refine readContent_eq_ok_iff.mpr ⟨r, h.locate hlocate, ?_⟩
  obtain ⟨c', hc'⟩ := h.kept hfile
  rcases h.file hc' with hsame | ⟨q, text, hq, hplace, -⟩
  · rw [hc', ← hsame, hfile]
  · exact absurd ⟨r, h.locate hlocate, hplace⟩ (hF q text hq)

theorem Wrote.sameFiles (h : Wrote F d d') (hF : ∀ p text, ¬ F p text) : SameFiles d d' := by
  intro r
  have hback : ∀ c, d'.file? r = some c → d.file? r = some c := fun c hc =>
    (h.file hc).resolve_right fun ⟨p, text, hwritten, _⟩ => hF p text hwritten
  cases hr : d.file? r with
  | none => exact Option.eq_none_iff_forall_ne_some.mpr fun c hc => by simp [hback c hc] at hr
  | some c =>
    obtain ⟨c', hc'⟩ := h.kept hr
    rw [hc', ← hback c' hc', hr]

theorem item?_put (h : isBase r = false) (item : DiskItem) (d : Disk) (s : List String) :
    (d.put r item).item? s = if s = r then some item else d.item? s := by
  by_cases hs : s = r
  · rw [if_pos hs, hs, item?_put_self h]
  · rw [if_neg hs, item?_put_of_ne hs]

theorem isBase_of_ne_directory (h : d.item? r ≠ some .directory) : isBase r = false := by
  by_contra hbase
  have htrue : isBase r = true := by simpa using hbase
  simp [item?, htrue] at h

theorem wrote_put_directory (F : Path → String → Prop) (h : d.item? r = none) :
    Wrote F d (d.put r .directory) := by
  have hitem := item?_put (isBase_of_item? h) .directory d
  have hfile : ∀ s, (d.put r .directory).file? s = d.file? s := by
    intro s
    by_cases hs : s = r
    · simp [file?, hitem, hs, h]
    · simp [file?, hitem, hs]
  exact {
    directory := fun {s} hs => by rw [hitem, hs, ite_self]
    kept := fun hs => ⟨_, (hfile _).trans hs⟩
    file := fun hs => .inl ((hfile _).symm.trans hs) }

theorem wrote_makeEach (F : Path → String → Prop) (way here names : List String) (d : Disk) :
    Wrote F d (makeEach way here names d).1 := by
  induction names generalizing way here d with
  | nil => exact .refl F d
  | cons name rest ih =>
    simp only [makeEach]
    split
    · exact .refl F d
    · split
      · exact ih _ _ _
      · exact .refl F d
      · rename_i hnone
        exact (wrote_put_directory F hnone).trans (ih _ _ _)

theorem wrote_makeAll (F : Path → String → Prop) (p : Path) (d : Disk) :
    Wrote F d (d.makeAll p).1 := by
  rcases makeAll_cases p d with hsame | heach
  · rw [hsame]
    exact .refl F d
  · rw [heach]
    exact wrote_makeEach F [] [] p.parts d

theorem wrote_put_file (hlocate : d.locate p = .ok r) (h : d.item? r ≠ some .directory) :
    Wrote (fun q t => q = p ∧ t = text) d (d.put r (.file (.text text))) := by
  have hitem := item?_put (isBase_of_ne_directory h) (.file (.text text)) d
  have hfile : ∀ s, (d.put r (.file (.text text))).file? s =
      if s = r then some (.text text) else d.file? s := by
    intro s
    by_cases hs : s = r
    · simp [file?, hitem, hs]
    · simp [file?, hitem, hs]
  have hdirectory : ∀ {s}, d.item? s = some .directory →
      (d.put r (.file (.text text))).item? s = some .directory := by
    intro s hs
    have hne : s ≠ r := fun he => h (he ▸ hs)
    rw [hitem, if_neg hne, hs]
  refine ⟨hdirectory, fun {s c} hs => ?_, fun {s c} hs => ?_⟩
  · by_cases he : s = r
    · exact ⟨.text text, by rw [hfile, if_pos he]⟩
    · exact ⟨c, by rw [hfile, if_neg he, hs]⟩
  · rw [hfile] at hs
    by_cases he : s = r
    · subst he
      rw [if_pos rfl] at hs
      have hplace := locate_of_directories hdirectory hlocate
      exact .inr ⟨p, text, ⟨rfl, rfl⟩, hplace, (Option.some.inj hs).symm⟩
    · rw [if_neg he] at hs
      exact .inl hs

theorem write_eq_ok_iff : d.write p text = .ok d' ↔ ∃ r, d.locate p = .ok r ∧
    d.item? r ≠ some .directory ∧ d' = d.put r (.file (.text text)) := by
  cases hlocate : d.locate p with
  | error e => simp [write, hlocate, bind, Except.bind]
  | ok r =>
    simp only [write, hlocate, bind, Except.bind, failAt, Except.ok.injEq, exists_eq_left']
    split <;> simp_all [eq_comm]

theorem wrote_write (h : d.write p text = .ok d') :
    Wrote (fun q t => q = p ∧ t = text) d d' ∧ d'.readContent p = .ok (.text text) := by
  obtain ⟨r, hlocate, hfree, rfl⟩ := write_eq_ok_iff.mp h
  have hwrote : Wrote (fun q t => q = p ∧ t = text) d (d.put r (.file (.text text))) :=
    wrote_put_file hlocate hfree
  refine ⟨hwrote, readContent_eq_ok_iff.mpr ⟨r, hwrote.locate hlocate, ?_⟩⟩
  rw [file?_eq_some_iff, item?_put_self (isBase_of_ne_directory hfree)]

theorem wrote_writeJson {v : Json} {e : Except FileWriteError Unit}
    (h : d.writeJson p v = (d', e)) :
    Wrote (fun q t => q = p ∧ t = v.writeFront .spread) d d' ∧
      (e = .ok () → v.isWritable .spread = true ∧
        d'.readContent p = .ok (.text (v.writeFront .spread))) := by
  simp only [writeJson] at h
  split at h
  · obtain ⟨rfl, rfl⟩ := Prod.mk.inj h
    exact ⟨.refl _ d, by simp⟩
  · rename_i hwrite
    obtain ⟨rfl, rfl⟩ := Prod.mk.inj h
    obtain ⟨hwrote, hcontent⟩ := wrote_write hwrite
    refine ⟨hwrote, fun hdone => ⟨?_, hcontent⟩⟩
    by_contra hlong
    simp [hlong] at hdone

end Disk

namespace Store

open Disk

variable {d d' : Disk} {e : Except FileWriteError Unit} {r here place : List String}

/-- Files written in turn: each holds its value in full unless a later path meets its own. -/
theorem wrote_writeAll {files : List (Path × Json)} (h : writeAll files d = (d', e)) :
    Wrote (fun q t => ∃ v, (q, v) ∈ files ∧ t = v.writeFront .spread) d d' ∧
      ∀ before p v after, e = .ok () → files = before ++ (p, v) :: after →
        (∀ x ∈ after, ¬ d'.Meet p x.1) →
        v.isWritable .spread = true ∧ d'.readContent p = .ok (.text (v.writeFront .spread)) := by
  induction files generalizing d with
  | nil =>
    obtain ⟨rfl, rfl⟩ := Prod.mk.inj h
    exact ⟨.refl _ d, by simp⟩
  | cons x files ih =>
    obtain ⟨q, w⟩ := x
    simp only [writeAll] at h
    split at h
    · rename_i hfirst
      obtain ⟨rfl, rfl⟩ := Prod.mk.inj h
      refine ⟨(wrote_writeJson hfirst).1.mono ?_, by simp⟩
      rintro p text ⟨rfl, rfl⟩
      exact ⟨w, by simp, rfl⟩
    · rename_i d₁ hfirst
      obtain ⟨hwrote, hheld⟩ := wrote_writeJson hfirst
      obtain ⟨hlater, hrest⟩ := ih h
      refine ⟨(hwrote.mono ?_).trans (hlater.mono ?_), fun before p v after he hfiles hapart => ?_⟩
      · rintro p text ⟨rfl, rfl⟩
        exact ⟨w, by simp, rfl⟩
      · rintro p text ⟨v, hv, rfl⟩
        exact ⟨v, List.mem_cons_of_mem _ hv, rfl⟩
      · cases before with
        | nil =>
          obtain ⟨hx, rfl⟩ := List.cons.inj hfiles
          obtain ⟨rfl, rfl⟩ := Prod.mk.inj hx
          obtain ⟨hwritable, hcontent⟩ := hheld rfl
          refine ⟨hwritable, hlater.readContent hcontent ?_⟩
          rintro p text ⟨v, hv, -⟩
          exact hapart (p, v) hv
        | cons y before => exact hrest before p v after he (List.cons.inj hfiles).2 hapart

theorem enter_cases {k : String} (h : enter here k = .ok place) :
    k = "." ∧ place = here ∨ k = ".." ∧ here ≠ [] ∧ place = here.dropLast ∨
      place = here ++ [k] := by
  simp only [enter] at h
  split at h
  · simp at h
  · split at h
    · rename_i hk
      exact .inl ⟨hk, (Except.ok.inj h).symm⟩
    · split at h
      · rename_i hk
        have hne : here ≠ [] := by
          rintro rfl
          simp at hk
        exact .inr (.inl ⟨hk.1, hne, (Except.ok.inj h).symm⟩)
      · exact .inr (.inr (Except.ok.inj h).symm)

theorem enter_inj {k k' : String} (h : enter here k = .ok place) (h' : enter here k' = .ok place) :
    k = k' := by
  -- The three ways lead to places of different lengths.
  rcases enter_cases h with ⟨rfl, hp⟩ | ⟨rfl, hne, hp⟩ | hp <;>
    rcases enter_cases h' with ⟨rfl, hp'⟩ | ⟨rfl, hne', hp'⟩ | hp' <;>
    have hsame := hp.symm.trans hp' <;> have hlength := congrArg List.length hsame <;>
    simp only [List.length_append, List.length_dropLast, List.length_singleton] at hlength
  all_goals try have hpositive := List.length_pos_of_ne_nil ‹here ≠ []›
  all_goals first | rfl | omega | simpa using hsame

theorem enter_here (here : List String) : enter here "." = .ok here := rfl

theorem parts_join_key {k : String} (hne : k ≠ "") (hslash : '/' ∉ k.toList) (base : Path) :
    (base.join k).parts = base.parts ++ [k].filter (· ≠ ".") := by
  have hhead : k.toList.head? ≠ some '/' := fun hhead => hslash (List.mem_of_head? hhead)
  have hsplit : Path.split k = [k] := by
    simp [Path.split, Path.root_of_not_mem hslash, Path.pieces_of_not_mem hslash, hne]
  simp [Path.join, hhead, Path.ofText, Path.ofParts, hsplit]

theorem follow_key {base : Path} {k : String} (hne : k ≠ "") (hslash : '/' ∉ k.toList)
    (h : d.follow [] (base.join k).parts = .ok place) :
    ∃ here, d.follow [] base.parts = .ok here ∧ enter here k = .ok place := by
  rw [parts_join_key hne hslash] at h
  by_cases hk : k = "."
  · have hsame : d.follow [] base.parts = .ok place := by simpa [hk] using h
    exact ⟨place, hsame, hk ▸ enter_here place⟩
  · rw [List.filter_cons_of_pos (by simpa using hk), List.filter_nil] at h
    obtain ⟨here, hhere, -, henter⟩ := follow_concat_eq_ok_iff.mp h
    exact ⟨here, hhere, henter⟩

theorem locate_join_name {p : Path} {f : String} (hf : IsName f)
    (h : d.locate (p.join f) = .ok r) :
    ∃ place, d.follow [] p.parts = .ok place ∧ r = place ++ [f] := by
  have hfollow := (locate_eq_ok.mp h).2.2
  rw [Path.parts_join hf] at hfollow
  obtain ⟨place, hplace, -, henter⟩ := follow_concat_eq_ok_iff.mp hfollow
  rw [enter_name hf] at henter
  split at henter
  · cases henter
  · exact ⟨place, hplace, (Except.ok.inj henter).symm⟩

theorem eq_of_meet {base : Path} {k k' f f' : String} (hk : k ≠ "" ∧ '/' ∉ k.toList)
    (hk' : k' ≠ "" ∧ '/' ∉ k'.toList) (hf : IsName f) (hf' : IsName f')
    (h : d.Meet ((base.join k).join f) ((base.join k').join f')) : k = k' ∧ f = f' := by
  obtain ⟨r, hr, hr'⟩ := h
  obtain ⟨place, hplace, rfl⟩ := locate_join_name hf hr
  obtain ⟨place', hplace', he⟩ := locate_join_name hf' hr'
  obtain ⟨rfl, hnames⟩ := List.append_inj' he rfl
  obtain ⟨here, hhere, henter⟩ := follow_key hk.1 hk.2 hplace
  obtain ⟨here', hhere', henter'⟩ := follow_key hk'.1 hk'.2 hplace'
  obtain rfl := Except.ok.inj (hhere.symm.trans hhere')
  exact ⟨enter_inj henter henter', List.singleton_inj.mp hnames⟩

def filesOfSave (base : Path) (time : String) (b : Blueprint) (n : Int) : List (Path × Json) :=
  [(versionFile base (keyFor b) n, b.record), (currentFile base (keyFor b), b.record),
    (indexFile base (keyFor b), index time (keyFor b) b n)]

/-- A save of the blueprint writes the text to that path. -/
def SavedFile (base : Path) (time : String) (b : Blueprint) (q : Path) (t : String) : Prop :=
  ∃ n v, (q, v) ∈ filesOfSave base time b n ∧ t = v.writeFront .spread

variable {base : Path} {time : String} {b b' : Blueprint} {n : Int}

theorem isKey_keyFor (b : Blueprint) : keyFor b ≠ "" ∧ '/' ∉ (keyFor b).toList :=
  ⟨key_ne_empty _, slash_not_mem_key _⟩

theorem exists_name_of_mem_filesOfSave {x : Path × Json} (h : x ∈ filesOfSave base time b n) :
    ∃ f, IsName f ∧ x.1 = (base.join (keyFor b)).join f := by
  simp only [filesOfSave, List.mem_cons, List.not_mem_nil, or_false] at h
  rcases h with rfl | rfl | rfl
  · exact ⟨versionName n, isName_versionName n, rfl⟩
  · exact ⟨"current.json", isName_current, rfl⟩
  · exact ⟨"index.json", isName_index, rfl⟩

theorem not_meet_current {x : Path × Json} (hkey : keyFor b' ≠ keyFor b)
    (h : x ∈ filesOfSave base time b' n) : ¬ d.Meet (currentFile base (keyFor b)) x.1 := by
  obtain ⟨f, hf, hx⟩ := exists_name_of_mem_filesOfSave h
  rw [hx]
  intro hmeet
  exact hkey (eq_of_meet (isKey_keyFor b) (isKey_keyFor b') isName_current hf hmeet).1.symm

theorem wrote_filesOfSave (h : writeAll (filesOfSave base time b n) d = (d', e)) :
    Wrote (SavedFile base time b) d d' ∧
      (e = .ok () → b.record.isWritable .spread = true ∧
        d'.readContent (currentFile base (keyFor b)) =
          .ok (.text (b.record.writeFront .spread))) := by
  obtain ⟨hwrote, hheld⟩ := wrote_writeAll h
  refine ⟨hwrote.mono fun q t ⟨v, hv, ht⟩ => ⟨n, v, hv, ht⟩, fun he => ?_⟩
  refine hheld [_] _ _ [_] he rfl ?_
  rintro x hx hmeet
  obtain rfl := List.mem_singleton.mp hx
  have hsame := eq_of_meet (isKey_keyFor b) (isKey_keyFor b) isName_current isName_index hmeet
  exact absurd hsame.2 (by decide)

/-- A save writes its files, and one that succeeds leaves the blueprint as the current state. -/
theorem wrote_save {r : Except StoreError Int} (h : save base time b d = (d', r)) :
    Wrote (SavedFile base time b) d d' ∧
      ∀ n, r = .ok n → b.record.isWritable .spread = true ∧
        d'.readContent (currentFile base (keyFor b)) =
          .ok (.text (b.record.writeFront .spread)) := by
  unfold save at h
  simp only at h
  split at h
  · obtain ⟨rfl, rfl⟩ := Prod.mk.inj h
    exact ⟨.refl _ d, by simp⟩
  · rename_i versions _
    generalize nextVersion versions = n at h
    have hmade := wrote_makeAll (SavedFile base time b) (directory base (keyFor b)) d
    split at h
    · rename_i hmake
      obtain ⟨rfl, rfl⟩ := Prod.mk.inj h
      rw [hmake] at hmade
      exact ⟨hmade, by simp⟩
    · rename_i d₁ hmake
      rw [hmake] at hmade
      split at h
      · rename_i hwrite
        obtain ⟨rfl, rfl⟩ := Prod.mk.inj h
        exact ⟨hmade.trans (wrote_filesOfSave hwrite).1, by simp⟩
      · rename_i hwrite
        obtain ⟨rfl, rfl⟩ := Prod.mk.inj h
        exact ⟨hmade.trans (wrote_filesOfSave hwrite).1, by simp⟩
      · rename_i hwrite
        obtain ⟨rfl, rfl⟩ := Prod.mk.inj h
        obtain ⟨hwrote, hheld⟩ := wrote_filesOfSave hwrite
        exact ⟨hmade.trans hwrote, fun _ _ => hheld rfl⟩

theorem loadFile_of_record {p : Path} (hwritable : b.record.isWritable .spread = true)
    (h : d.readContent p = .ok (.text (b.record.writeFront .spread))) :
    loadFile p d = .ok (some b.quiet.draft) := by
  obtain ⟨r, hlocate, hfile⟩ := readContent_eq_ok_iff.mp h
  rw [file?_eq_some_iff] at hfile
  have hhas : d.has p = .ok true := by
    simp [Disk.has, lookup, hlocate, hfile, Except.map]
  obtain ⟨htext, hjson⟩ := read_record hwritable
  have hread : d.readJson p = .ok b.quiet.record := by
    simp only [readJson, Disk.read, h, htext, hjson]
  simp only [loadFile, hhas, readDraft, hread, ofValue_record, Except.map]

/-- What the store gives for an identifier is what the current state under its key holds. -/
theorem load_of_current {identifier : String} (hkey : key identifier = keyFor b)
    (hwritable : b.record.isWritable .spread = true)
    (h : d.readContent (currentFile base (keyFor b)) = .ok (.text (b.record.writeFront .spread))) :
    load base identifier none d = .ok (some b.quiet.draft) := by
  simp only [load, hkey, loadFile_of_record hwritable h]

end Store

end BlueprintPatch

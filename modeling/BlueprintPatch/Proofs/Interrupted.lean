import BlueprintPatch.Proofs.Outcomes

/-! Saves that fail. The files are written one after the other and none is taken back, so a version
that has been begun stays behind, with whatever was written of it. The index comes last, and stays
as it was. -/
namespace BlueprintPatch

theorem Path.exists_shown_join (p : Path) :
    ∃ front, ∀ f, IsName f → (p.join f).shown = front ++ f := by
  obtain ⟨parts, shown⟩ := p
  cases parts with
  | nil =>
    refine ⟨"", fun f hf => ?_⟩
    rw [join_eq hf]
    simp [ofParts, render, String.intercalate_singleton]
  | cons first rest =>
    by_cases hroot : first ∈ roots
    · by_cases hrest : rest = []
      · refine ⟨first, fun f hf => ?_⟩
        rw [join_eq hf]
        simp [ofParts, render, hroot, hrest]
      · refine ⟨first ++ "/".intercalate rest ++ "/", fun f hf => ?_⟩
        rw [join_eq hf]
        simp only [ofParts, List.cons_append, render, if_pos hroot, intercalate_concat "/" hrest,
          String.append_assoc]
    · refine ⟨"/".intercalate (first :: rest) ++ "/", fun f hf => ?_⟩
      rw [join_eq hf]
      simp only [ofParts, List.cons_append, render, if_neg hroot]
      exact intercalate_concat "/" (List.cons_ne_nil first rest) f

namespace Disk

variable {p : Path} {d d₁ d' : Disk} {f : String}

theorem lookup_of_refused (h : '\x00' ∈ p.shown.toList ∨ maxPathBytes < p.shown.utf8ByteSize)
    (d d' : Disk) : d'.lookup p = d.lookup p := by
  by_cases hnull : '\x00' ∈ p.shown.toList
  · simp [lookup, locate, hnull]
  · simp [lookup, locate, hnull, h.resolve_left hnull, failAt]

/-- Where there is no room for a name, there is none for longer ones. -/
theorem lookup_of_not_room {g : String} (hf : IsName f) (hg : IsName g) (h : ¬ Room p f)
    (hshort : ¬ maxNameBytes < f.utf8ByteSize) (hnull : '\x00' ∉ f.toList)
    (hlong : f.utf8ByteSize ≤ g.utf8ByteSize) (d d' : Disk) :
    d'.lookup (p.join g) = d.lookup (p.join g) := by
  obtain ⟨front, hfront⟩ := p.exists_shown_join
  refine lookup_of_refused ?_ d d'
  by_contra hroom
  rw [hfront g hg, String.toList_append, List.mem_append, String.utf8ByteSize_append] at hroom
  refine h ⟨?_, ?_, hshort⟩
  · rw [hfront f hf, String.toList_append, List.mem_append]
    exact fun hmem => hroom (.inl (.inl (hmem.resolve_right hnull)))
  · rw [hfront f hf, String.utf8ByteSize_append]
    exact fun hmem => hroom (.inr (by omega))

/-- What a path in the directory gives does not change unless its file is written. -/
theorem Readied.lookup_putFiles (hd : IsTree d) (h : Readied p d d₁) (hf : IsName f)
    (hshort : Stands p d ∨ ¬ maxNameBytes < f.utf8ByteSize) {files : List (String × String)}
    (hstands : Stands p (putFiles (home p) files d₁)) (hother : f ∉ files.map Prod.fst) :
    (putFiles (home p) files d₁).lookup (p.join f) = d.lookup (p.join f) :=
  h.lookup_eq hd hstands.open hf hshort (item?_putFiles_of_not_mem hother d₁)

end Disk

namespace Store

open Disk

variable {base p : Path} {d d₁ d' : Disk} {k time : String} {b : Blueprint} {n : Int}
  {versions : List Int}

theorem loadFile_congr (h : d'.lookup p = d.lookup p) : loadFile p d' = loadFile p d := by
  have hhas : d'.has p = d.has p := by rw [Disk.has, Disk.has, h]
  unfold loadFile
  rw [hhas]
  split
  · rfl
  · rfl
  · rename_i hthere
    simp only [readDraft, readJson, Disk.read, readContent_congr h hthere]

theorem size_versionName_le (v : Int) :
    (versionName 1).utf8ByteSize ≤ (versionName v).utf8ByteSize := by
  have hne : (toString v).utf8ByteSize ≠ 0 := by
    intro hzero
    have hversion := versionOf?_versionName v
    rw [versionName, String.utf8ByteSize_eq_zero_iff.mp hzero] at hversion
    have hnone : versionOf? ("v" ++ "" ++ ".json") = none := by decide +kernel
    rw [hnone] at hversion
    cases hversion
  have hfirst : (versionName 1).utf8ByteSize = 7 := by decide +kernel
  have hv : "v".utf8ByteSize = 1 := by decide +kernel
  have hend : ".json".utf8ByteSize = 5 := by decide +kernel
  rw [hfirst, versionName, String.utf8ByteSize_append, String.utf8ByteSize_append, hv, hend]
  omega

/-- Both disks give the same for the key. -/
structure Intact (base : Path) (k : String) (d d' : Disk) : Prop where
  history : history base k d' = history base k d
  load : ∀ version, load base k version d' = load base k version d
  index : d'.lookup (indexFile base k) = d.lookup (indexFile base k)

/-- Version `n` has been begun. It is listed after all others, which stay as they were, and so do
the current state, unless both hold the blueprint by now, and the index, unless a number in it has
too many digits. -/
structure Begun (base : Path) (time : String) (b : Blueprint) (versions : List Int) (n : Int)
    (d d' : Disk) : Prop where
  before : history base (keyFor b) d = .ok versions
  newest : ∀ v ∈ versions, v < n
  after : history base (keyFor b) d' = .ok (versions ++ [n])
  others : ∀ v ≠ n, Stands (directory base (keyFor b)) d ∨
    ¬ maxNameBytes < (versionName v).utf8ByteSize →
      load base (keyFor b) (some v) d' = load base (keyFor b) (some v) d
  current : load base (keyFor b) none d' = load base (keyFor b) none d ∨
    ∀ version ∈ [none, some n], load base (keyFor b) version d' = .ok (some b.quiet.draft)
  index : d'.lookup (indexFile base (keyFor b)) = d.lookup (indexFile base (keyFor b)) ∨
    (index time (keyFor b) b n).isWritable .spread = false

theorem load_of_written {files : List (String × Json)}
    (hready : Readied (directory base (keyFor b)) d d₁)
    (hfiles : files <+: savedFiles time (keyFor b) b n)
    (htaken : ∀ file ∈ files, Takes (directory base (keyFor b)) file.1 d₁)
    (hwritable : b.record.isWritable .spread = true)
    (hversion : (versionName n, b.record) ∈ files) (hcurrent : ("current.json", b.record) ∈ files) :
    ∀ version ∈ [none, some n], load base (keyFor b) version
      (putFiles (home (directory base (keyFor b))) (texts files) d₁) =
        .ok (some b.quiet.draft) := by
  have hnames : ∀ file ∈ files, IsName file.1 := fun file hfile =>
    isName_savedFiles time (keyFor b) b n file (hfiles.subset hfile)
  have hnodup : (files.map Prod.fst).Nodup :=
    (nodup_savedNames n).sublist (hfiles.map Prod.fst).sublist
  have hheld : ∀ f, (f, b.record) ∈ files → loadFile ((directory base (keyFor b)).join f)
      (putFiles (home (directory base (keyFor b))) (texts files) d₁) =
        .ok (some b.quiet.draft) := fun f hf =>
    loadFile_of_record hwritable (readContent_written hready.stands htaken hnames hnodup hf)
  intro version hmem
  simp only [List.mem_cons, List.not_mem_nil, or_false] at hmem
  rcases hmem with rfl | rfl
  · simp only [load, key_keyFor]
    exact hheld _ hcurrent
  · simp only [load, key_keyFor]
    exact hheld _ hversion

section
variable (hd : IsTree d) (hhistory : history base (keyFor b) d = .ok versions)
  (hready : Readied (directory base (keyFor b)) d d₁)
include hd hhistory hready

theorem isFree_version :
    d₁.item? (home (directory base (keyFor b)) ++ [versionName (nextVersion versions)]) = none := by
  have hversions := versionsIn_of_readied hd hhistory (key_keyFor b) hready
  have hlt := lt_nextVersion_of_history hd hhistory (key_keyFor b) hready
  rw [← hversions] at hlt ⊢
  exact item?_eq_none_of_not_mem (isName_versionName _) (not_mem_namesIn_of_lt hlt)

/-- If the first file is refused, nothing that the store gives has changed, although the directory
may have been made. -/
theorem intact_of_refused
    (hrefused : ¬ Takes (directory base (keyFor b)) (versionName (nextVersion versions)) d₁) :
    Intact base (keyFor b) d d₁ := by
  have hroom : ¬ Room (directory base (keyFor b)) (versionName (nextVersion versions)) :=
    fun hroom => hrefused ⟨hroom, by simp [isFree_version hd hhistory hready]⟩
  have hlookup : ∀ f, IsName f → (versionName 1).utf8ByteSize ≤ f.utf8ByteSize →
      d₁.lookup ((directory base (keyFor b)).join f) =
        d.lookup ((directory base (keyFor b)).join f) := by
    intro f hf hlong
    have hversions := versionsIn_of_readied hd hhistory (key_keyFor b) hready
    have hnames := hready.namesIn_eq
    cases hready with
    | there hstands => rfl
    | made hlocate hnone =>
      -- there was no version before, so the first one is refused for a path that is too long
      rw [hd.namesIn_eq_nil (by simp [hnone])] at hnames
      obtain rfl : versions = [] := by
        simp [← hversions, versionsIn, hnames]
      exact lookup_of_not_room (isName_versionName 1) hf hroom (by decide +kernel)
        (by decide +kernel) hlong _ _
  refine ⟨?_, fun version => ?_, hlookup _ isName_index (by decide +kernel)⟩
  · rw [hhistory, history_eq_ok_iff, key_keyFor]
    exact .inl ⟨hready.stands, (versionsIn_of_readied hd hhistory (key_keyFor b) hready).symm⟩
  · cases version with
    | none =>
      simp only [load, key_keyFor]
      exact loadFile_congr (hlookup _ isName_current (by decide +kernel))
    | some v =>
      simp only [load, key_keyFor]
      exact loadFile_congr (hlookup _ (isName_versionName v) (size_versionName_le v))

/-- The version has been begun once its file and maybe further ones are written. -/
theorem begun_of_written {rest : List (String × Json)}
    (hrest : rest <+: [("current.json", b.record),
      ("index.json", index time (keyFor b) b (nextVersion versions))])
    (htaken : ∀ file ∈ (versionName (nextVersion versions), b.record) :: rest,
      Takes (directory base (keyFor b)) file.1 d₁)
    (hcurrent : rest ≠ [] → b.record.isWritable .spread = true)
    (hindex : "index.json" ∈ rest.map Prod.fst →
      (index time (keyFor b) b (nextVersion versions)).isWritable .spread = false) :
    Begun base time b versions (nextVersion versions) d
      (putFiles (home (directory base (keyFor b)))
        (texts ((versionName (nextVersion versions), b.record) :: rest)) d₁) := by
  have hkey := key_keyFor b
  have hsub : rest.map Prod.fst <+: ["current.json", "index.json"] := hrest.map Prod.fst
  have hnone : ∀ file ∈ rest, versionOf? file.1 = none := by
    intro file hfile
    have hmem := hsub.subset (List.mem_map_of_mem hfile)
    simp only [List.mem_cons, List.not_mem_nil, or_false] at hmem
    rcases hmem with hname | hname
    · rw [hname, versionOf?_current]
    · rw [hname, versionOf?_index]
  obtain ⟨hstands, hafter⟩ := history_of_begun hd hhistory hkey hready hnone htaken
  -- what is not written is looked up as before
  have hother : ∀ f, IsName f → Stands (directory base (keyFor b)) d ∨
      ¬ maxNameBytes < f.utf8ByteSize → f ≠ versionName (nextVersion versions) →
        f ∉ rest.map Prod.fst → (putFiles (home (directory base (keyFor b)))
          (texts ((versionName (nextVersion versions), b.record) :: rest)) d₁).lookup
            ((directory base (keyFor b)).join f) =
              d.lookup ((directory base (keyFor b)).join f) := by
    intro f hf hshort hversion hmem
    refine hready.lookup_putFiles hd hf hshort hstands ?_
    rw [map_fst_texts, List.map_cons, List.mem_cons, not_or]
    exact ⟨hversion, hmem⟩
  refine ⟨hhistory, lt_nextVersion_of_history hd hhistory hkey hready, hafter,
    fun v hv hshort => ?_, ?_, ?_⟩
  · simp only [load, hkey]
    refine loadFile_congr (hother _ (isName_versionName v) hshort
      (fun h => hv (versionName_inj h)) ?_)
    intro hmem
    obtain ⟨file, hfile, hname⟩ := List.mem_map.mp hmem
    exact versionName_ne (hnone file hfile) v hname.symm
  · cases rest with
    | nil =>
      refine .inl ?_
      simp only [load, hkey]
      exact loadFile_congr (hother _ isName_current (.inr (by decide +kernel))
        (versionName_ne versionOf?_current _).symm (by simp))
    | cons file rest =>
      obtain ⟨rfl, -⟩ := List.cons_prefix_cons.mp hrest
      exact .inr (load_of_written hready (List.cons_prefix_cons.mpr ⟨rfl, hrest⟩) htaken
        (hcurrent (by simp)) (by simp) (by simp))
  · by_cases hlast : "index.json" ∈ rest.map Prod.fst
    · exact .inr (hindex hlast)
    · exact .inl (hother _ isName_index (.inr (by decide +kernel))
        (versionName_ne versionOf?_index _).symm hlast)

end

/-- A save that fails before it has begun the new version changes nothing that the store gives.
After that the version stays behind, listed and maybe not complete. -/
theorem failed_save_intact_or_begun (hd : IsTree d) (hbase : Open base d) {e : StoreError}
    (h : save base time b d = (d', .error e)) :
    Intact base (keyFor b) d d' ∨ ∃ versions n, Begun base time b versions n d d' := by
  have hsaving := saving_save hbase time b
  rw [h] at hsaving
  generalize hr : (.error e : Except StoreError Int) = result at hsaving
  cases hsaving with
  | unready => exact .inl ⟨rfl, fun _ => rfl, rfl⟩
  | @writing versions d₁ _ r hhistory hready hwrites =>
    cases hwrites with
    | done htaken hwritable => cases hr
    | @refused before after file e hfiles htaken hwritable hrefused =>
      rcases before with _ | ⟨x, _ | ⟨y, _ | ⟨z, more⟩⟩⟩
      · obtain ⟨rfl, -⟩ := List.cons.inj hfiles
        exact .inl (intact_of_refused hd hhistory hready hrefused)
      · obtain ⟨rfl, -⟩ := List.cons.inj hfiles
        exact .inr ⟨_, _, begun_of_written hd hhistory hready (List.nil_prefix) htaken (by simp)
          (by simp)⟩
      · obtain ⟨rfl, hlater⟩ := List.cons.inj hfiles
        obtain ⟨rfl, -⟩ := List.cons.inj hlater
        exact .inr ⟨_, _, begun_of_written hd hhistory hready (by simp) htaken
          (fun _ => (hwritable _ List.mem_cons_self)) (by simp)⟩
      · simp [savedFiles] at hfiles
    | @oversized before after file hfiles htaken hwritable hoversized =>
      rcases before with _ | ⟨x, _ | ⟨y, _ | ⟨z, more⟩⟩⟩
      · obtain ⟨rfl, -⟩ := List.cons.inj hfiles
        exact .inr ⟨_, _, begun_of_written hd hhistory hready (List.nil_prefix) htaken (by simp)
          (by simp)⟩
      · obtain ⟨rfl, hlater⟩ := List.cons.inj hfiles
        obtain ⟨rfl, -⟩ := List.cons.inj hlater
        -- the current state is the same record as the version
        have hsame := hwritable _ List.mem_cons_self
        simp only at hsame hoversized
        rw [hsame] at hoversized
        cases hoversized
      · obtain ⟨rfl, hlater⟩ := List.cons.inj hfiles
        obtain ⟨rfl, hlast⟩ := List.cons.inj hlater
        obtain ⟨rfl, -⟩ := List.cons.inj hlast
        exact .inr ⟨_, _, begun_of_written hd hhistory hready (by simp) htaken
          (fun _ => (hwritable _ List.mem_cons_self)) (fun _ => hoversized)⟩
      · simp [savedFiles] at hfiles

/-- A store where the lamp has no version and a directory stands in the place of a file of it. -/
def blocked (f : String) : Disk :=
  ⟨[(["blueprints"], .directory), (["blueprints", "Game_Lamp"], .directory),
    (["blueprints", "Game_Lamp", f], .directory)]⟩

def blockedError (f : String) : StoreError :=
  .unsaved "Lamp" (.refused .isDirectory ("'blueprints/Game_Lamp/" ++ f ++ "'"))

theorem save_blocked {f : String} (hf : f ∈ ["current.json", "index.json"]) :
    (save blueprints "" bareLamp (blocked f)).2 = .error (blockedError f) ∧
      history blueprints "Game_Lamp" (blocked f) = .ok [] ∧
      history blueprints "Game_Lamp" (save blueprints "" bareLamp (blocked f)).1 = .ok [1] := by
  have hbefore : history blueprints "Game_Lamp" (blocked f) = .ok [] := by
    simp only [List.mem_cons, List.not_mem_nil, or_false] at hf
    rcases hf with rfl | rfl <;>
      exact history_of_sorted ⟨by decide +kernel, by decide +kernel⟩ (by decide +kernel) (by decide)
  rw [save_of_history "" (keyFor_bareLamp ▸ hbefore)]
  simp only [List.mem_cons, List.not_mem_nil, or_false] at hf
  rcases hf with rfl | rfl <;>
    exact ⟨by decide +kernel, hbefore,
      history_of_sorted ⟨by decide +kernel, by decide +kernel⟩ (by decide +kernel) (by decide)⟩

theorem not_intact_of_blocked {f : String} (hf : f ∈ ["current.json", "index.json"]) :
    ¬ Intact blueprints "Game_Lamp" (blocked f)
      (save blueprints "" bareLamp (blocked f)).1 := by
  obtain ⟨-, hbefore, hafter⟩ := save_blocked hf
  intro h
  have hsame := h.history
  rw [hbefore, hafter] at hsame
  exact absurd (Except.ok.inj hsame) (by decide)

theorem failed_save_blocked_index :
    let d := (save blueprints "" bareLamp (blocked "index.json")).1
    IsTree (blocked "index.json") ∧ Open blueprints (blocked "index.json") ∧
      save blueprints "" bareLamp (blocked "index.json") = (d, .error (blockedError "index.json")) ∧
      ∃ versions n, Begun blueprints "" bareLamp versions n (blocked "index.json") d := by
  intro d
  have htree : IsTree (blocked "index.json") := by decide +kernel
  have hopen : Open blueprints (blocked "index.json") := ⟨by decide +kernel, by decide +kernel⟩
  have hfailed : save blueprints "" bareLamp (blocked "index.json") =
      (d, .error (blockedError "index.json")) := Prod.ext rfl (save_blocked (by simp)).1
  have hchanged : ¬ Intact blueprints (keyFor bareLamp) (blocked "index.json") d := by
    rw [keyFor_bareLamp]
    exact not_intact_of_blocked (by simp)
  exact ⟨htree, hopen, hfailed,
    (failed_save_intact_or_begun htree hopen hfailed).resolve_left hchanged⟩

/-- The first version of the lamp has been written when the current state cannot be; it stays. -/
theorem failed_save_lists_version :
    let d := (save blueprints "" bareLamp (blocked "current.json")).1
    IsTree (blocked "current.json") ∧ Open blueprints (blocked "current.json") ∧
      save blueprints "" bareLamp (blocked "current.json") =
        (d, .error (blockedError "current.json")) ∧
      history blueprints "Game_Lamp" (blocked "current.json") = .ok [] ∧
      history blueprints "Game_Lamp" d = .ok [1] ∧
      ¬ Intact blueprints "Game_Lamp" (blocked "current.json") d := by
  intro d
  obtain ⟨hanswer, hbefore, hafter⟩ := save_blocked (f := "current.json") (by simp)
  exact ⟨by decide +kernel, ⟨by decide +kernel, by decide +kernel⟩, Prod.ext rfl hanswer, hbefore,
    hafter, not_intact_of_blocked (by simp)⟩

end Store

end BlueprintPatch

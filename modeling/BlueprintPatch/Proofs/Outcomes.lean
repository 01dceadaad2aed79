import BlueprintPatch.Proofs.Directories
import BlueprintPatch.Proofs.Numbering

/-! What a save does, however it ends and whatever the directory of the blueprint holds. A save that
succeeds adds a version: its file was not there, its number is above all that were listed, and no
other file is touched but the current state and the index. -/
namespace BlueprintPatch

namespace Disk

variable {p base : Path} {d d₁ d' : Disk} {f k : String} {q r : List String}

/-- The directory at the path has been made, if need be, and nothing else has changed. -/
inductive Readied (p : Path) (d : Disk) : Disk → Prop
  | there (h : Stands p d) : Readied p d d
  | made (hlocate : d.locate p = .ok (home p)) (hnone : d.item? (home p) = none) :
      Readied p d (d.put (home p) .directory)

theorem Readied.stands (h : Readied p d d₁) : Stands p d₁ := by
  cases h with
  | there h => exact h
  | made hlocate hnone =>
    exact ⟨(wrote_put_directory (fun _ _ => False) hnone).locate hlocate,
      item?_put_self (isBase_of_item? hnone) .directory d⟩

theorem Readied.item?_eq (h : Readied p d d₁) (hr : r ≠ home p) : d₁.item? r = d.item? r := by
  cases h with
  | there h => rfl
  | made hlocate hnone => exact item?_put_of_ne hr .directory d

theorem nameIn?_self (q : List String) : nameIn? q q = none := by
  cases hname : nameIn? q q with
  | none => rfl
  | some f => simpa using nameIn?_eq_some_iff.mp hname

theorem Readied.namesIn_eq (h : Readied p d d₁) : namesIn (home p) d₁ = namesIn (home p) d := by
  cases h with
  | there h => rfl
  | made hlocate hnone => simp [namesIn_put, nameIn?_self]

theorem follow_to_key (hbase : Open base d) (hk : k ≠ "" ∧ '/' ∉ k.toList) :
    d.follow [] (base.join k).parts = enter (home base) k := by
  rw [Store.parts_join_key hk.1 hk.2, follow_append, hbase.follow]
  by_cases hhere : k = "."
  · simp [hhere, Except.bind, follow, Store.enter_here]
  · rw [List.filter_cons_of_pos (by simpa using hhere), List.filter_nil]
    simp only [Except.bind, follow, hbase.directory]
    cases enter (home base) k <;> rfl

theorem eq_nameTooLong_of_enter {here : List String} {kind : DiskErrorKind}
    (h : enter here k = .error kind) : kind = .nameTooLong := by
  simp only [enter] at h
  repeat' split at h
  all_goals simp_all

/-- The key may be too long, but nothing is missing on the way to it. -/
theorem locate_key_ne_notFound (hbase : Open base d) (hk : k ≠ "" ∧ '/' ∉ k.toList)
    (path : String) : d.locate (base.join k) ≠ .error (.refused .notFound path) := by
  intro hlocate
  have hfollow := follow_to_key hbase hk
  generalize base.join k = p at hfollow hlocate
  simp only [locate, failAt] at hlocate
  repeat' split at hlocate
  · simp at hlocate
  · simp at hlocate
  · simp at hlocate
  · rename_i kind hkind
    obtain rfl := eq_nameTooLong_of_enter (hfollow.symm.trans hkind)
    simp at hlocate

theorem missing_key_le (hbase : Open base d) (hk : k ≠ "" ∧ '/' ∉ k.toList) :
    d.missing [] (base.join k).parts ≤ 1 := by
  rw [Store.parts_join_key hk.1 hk.2, missing_append hbase.follow hbase.directory]
  by_cases hhere : k = "."
  · simp [hhere, missing]
  · rw [List.filter_cons_of_pos (by simpa using hhere), List.filter_nil]
    exact missing_name_le d (home base) k

theorem makeAll_key (hbase : Open base d) (hk : k ≠ "" ∧ '/' ∉ k.toList) :
    (∃ e, d.makeAll (base.join k) = (d, .error e)) ∨
      ∃ d₁, Readied (base.join k) d d₁ ∧ d.makeAll (base.join k) = (d₁, .ok ()) := by
  have hfollow := follow_to_key hbase hk
  have hparts := Store.parts_join_key hk.1 hk.2 base
  have hfound := locate_key_ne_notFound hbase hk
  have hle := missing_key_le hbase hk
  generalize base.join k = p at hfollow hparts hfound hle ⊢
  cases hlocate : d.locate p with
  | error e =>
    refine .inl ⟨e, ?_⟩
    have hother : ∀ path, e ≠ .refused .notFound path := fun path he =>
      hfound path (he ▸ hlocate)
    simp only [makeAll, hlocate]
  | ok place =>
    have hplace : enter (home base) k = .ok place :=
      hfollow.symm.trans (locate_eq_ok.mp hlocate).2.2
    have hmissing : ¬ maxMissing < d.missing [] p.parts := by
      rw [maxMissing]
      omega
    have hmake : d.makeAll p = makeEach base.parts (home base) ([k].filter (· ≠ ".")) d := by
      rw [makeAll, hlocate]
      simp only [if_neg hmissing]
      rw [hparts, makeEach_append hbase.follow hbase.directory, List.nil_append]
    rw [hmake]
    by_cases hhere : k = "."
    · subst hhere
      obtain rfl := Except.ok.inj ((Store.enter_here (home base)).symm.trans hplace)
      exact .inr ⟨d, .there (stands_of_locate hlocate hbase.directory), rfl⟩
    · simp only [ne_eq, hhere, not_false_eq_true, decide_true, List.filter_cons_of_pos,
        List.filter_nil, makeEach, hplace]
      split
      · rename_i hdirectory
        exact .inr ⟨d, .there (stands_of_locate hlocate hdirectory), rfl⟩
      · exact .inl ⟨_, rfl⟩
      · rename_i hnone
        obtain rfl := home_eq_of_locate hlocate
        exact .inr ⟨_, .made hlocate hnone, rfl⟩

/-- What a path in the directory gives is what it gave before the directory was made. A name that
is too long is an error only where there is a directory to look in. -/
theorem Readied.lookup_eq (hd : IsTree d) (h : Readied p d d₁) (hp : Open p d') (hf : IsName f)
    (hshort : Stands p d ∨ ¬ maxNameBytes < f.utf8ByteSize)
    (hitem : d'.item? (home p ++ [f]) = d₁.item? (home p ++ [f])) :
    d'.lookup (p.join f) = d.lookup (p.join f) := by
  have hbefore : d'.item? (home p ++ [f]) = d.item? (home p ++ [f]) :=
    hitem.trans (h.item?_eq (by simp))
  by_cases hstands : Stands p d
  · exact lookup_in_congr hstands.open hp hf hbefore
  · cases h with
    | there h => exact absurd h hstands
    | made hlocate hnone =>
      have hmissing : d'.item? (home p ++ [f]) = none := by
        rw [hbefore]
        refine item?_eq_none_of_not_mem hf ?_
        simp [hd.namesIn_eq_nil (q := home p) (by simp [hnone])]
      have hfollow : d.follow [] (p.join f).parts = .error .notFound := by
        rw [Path.parts_join hf, follow_append, (locate_eq_ok.mp hlocate).2.2]
        simp only [Except.bind, follow, hnone]
      have hfollow' : d'.follow [] (p.join f).parts = .ok (home p ++ [f]) := by
        rw [follow_join hp hf, enter_name hf, if_neg (hshort.resolve_left hstands)]
      by_cases hnull : '\x00' ∈ (p.join f).shown.toList
      · simp [lookup, locate, hnull]
      · by_cases hpath : maxPathBytes < (p.join f).shown.utf8ByteSize
        · simp [lookup, locate, hnull, hpath, failAt]
        · simp [lookup, locate, hnull, hpath, hfollow, hfollow', hmissing, failAt]

/-- The disk takes a file under the name `f` in the directory. -/
structure Takes (p : Path) (f : String) (d : Disk) : Prop where
  room : Room p f
  free : d.item? (home p ++ [f]) ≠ some .directory

theorem takes_putFiles_iff {files : List (String × String)} (h : f ∉ files.map Prod.fst) :
    Takes p f (putFiles (home p) files d) ↔ Takes p f d := by
  have hitem := item?_putFiles_of_not_mem (q := home p) h d
  exact ⟨fun ht => ⟨ht.room, hitem ▸ ht.free⟩, fun ht => ⟨ht.room, hitem.symm ▸ ht.free⟩⟩

theorem write_in_eq_ok_iff (h : Open p d) (hf : IsName f) (text : String) :
    d.write (p.join f) text = .ok d' ↔
      Takes p f d ∧ d' = d.put (home p ++ [f]) (.file (.text text)) := by
  rw [write_eq_ok_iff]
  constructor
  · rintro ⟨r, hlocate, hfree, hput⟩
    obtain ⟨hroom, rfl⟩ := (locate_in_eq_ok_iff h hf).mp hlocate
    exact ⟨⟨hroom, hfree⟩, hput⟩
  · rintro ⟨ht, hput⟩
    exact ⟨_, (locate_in_eq_ok_iff h hf).mpr ⟨ht.room, rfl⟩, ht.free, hput⟩

end Disk

namespace Store

open Disk

variable {p base : Path} {d d₁ d' : Disk} {k f : String} {q : List String}
  {time : String} {b : Blueprint} {n : Int} {versions : List Int}

def texts (files : List (String × Json)) : List (String × String) :=
  files.map fun file => (file.1, file.2.writeFront .spread)

theorem map_fst_texts (files : List (String × Json)) :
    (texts files).map Prod.fst = files.map Prod.fst := by
  rw [texts, List.map_map]
  rfl

theorem stands_written {files : List (String × Json)} (h : Stands p d)
    (htaken : ∀ x ∈ files, Takes p x.1 d) : Stands p (putFiles (home p) (texts files) d) := by
  refine h.putFiles fun file hfile => ?_
  obtain ⟨x, hx, rfl⟩ := List.mem_map.mp hfile
  exact (htaken x hx).free

theorem readContent_written {files : List (String × Json)} {v : Json} (h : Stands p d)
    (htaken : ∀ x ∈ files, Takes p x.1 d) (hnames : ∀ x ∈ files, IsName x.1)
    (hnodup : (files.map Prod.fst).Nodup) (hmem : (f, v) ∈ files) :
    (putFiles (home p) (texts files) d).readContent (p.join f) =
      .ok (.text (v.writeFront .spread)) := by
  have hnodup : ((texts files).map Prod.fst).Nodup := by rwa [map_fst_texts]
  have htext : (f, v.writeFront .spread) ∈ texts files := List.mem_map.mpr ⟨_, hmem, rfl⟩
  exact readContent_in (stands_written h htaken).open (hnames _ hmem) (htaken _ hmem).room
    (item?_putFiles_of_mem (List.forall_mem_map.mpr hnames) hnodup htext d)

/-- How it ends to write values into files of a directory in turn: all are written, or one of the
files is refused, or one of the values has a number with too many digits. -/
inductive Writes (p : Path) (files : List (String × Json)) (d : Disk) :
    Disk → Except FileWriteError Unit → Prop
  | done (htaken : ∀ x ∈ files, Takes p x.1 d)
      (hwritable : ∀ x ∈ files, x.2.isWritable .spread = true) :
      Writes p files d (putFiles (home p) (texts files) d) (.ok ())
  | refused (before : List (String × Json)) {after : List (String × Json)} {file : String × Json}
      {e : DiskError}
      (hfiles : files = before ++ file :: after) (htaken : ∀ x ∈ before, Takes p x.1 d)
      (hwritable : ∀ x ∈ before, x.2.isWritable .spread = true)
      (hrefused : ¬ Takes p file.1 d) :
      Writes p files d (putFiles (home p) (texts before) d) (.error (.disk e))
  | oversized (before : List (String × Json)) {after : List (String × Json)}
      {file : String × Json}
      (hfiles : files = before ++ file :: after) (htaken : ∀ x ∈ before ++ [file], Takes p x.1 d)
      (hwritable : ∀ x ∈ before, x.2.isWritable .spread = true)
      (hoversized : file.2.isWritable .spread = false) :
      Writes p files d (putFiles (home p) (texts (before ++ [file])) d) (.error .oversizedInteger)

theorem Writes.cons {file : String × Json} {files : List (String × Json)}
    {r : Except FileWriteError Unit} (hfile : file.1 ∉ files.map Prod.fst)
    (htaken : Takes p file.1 d) (hwritable : file.2.isWritable .spread = true)
    (h : Writes p files (putFiles (home p) (texts [file]) d) d' r) :
    Writes p (file :: files) d d' r := by
  have hback : ∀ x ∈ files, Takes p x.1 (putFiles (home p) (texts [file]) d) → Takes p x.1 d := by
    intro x hx ht
    refine (takes_putFiles_iff ?_).mp ht
    have hne : x.1 ≠ file.1 := fun heq => hfile (heq ▸ List.mem_map_of_mem hx)
    simpa [texts] using hne
  cases h with
  | done htaken' hwritable' =>
    refine .done (List.forall_mem_cons.mpr ⟨htaken, fun x hx => hback x hx (htaken' x hx)⟩) ?_
    exact List.forall_mem_cons.mpr ⟨hwritable, hwritable'⟩
  | @refused before after x e hfiles htaken' hwritable' hrefused =>
    have hx : x.1 ≠ file.1 := by
      rintro heq
      exact hfile (heq ▸ List.mem_map_of_mem (by simp [hfiles]))
    refine .refused (file :: before) (by rw [hfiles, List.cons_append])
      (List.forall_mem_cons.mpr ⟨htaken, fun y hy => hback y (by simp [hfiles, hy]) (htaken' y hy)⟩)
      (List.forall_mem_cons.mpr ⟨hwritable, hwritable'⟩) fun ht => hrefused ?_
    exact (takes_putFiles_iff (by simpa [texts] using hx)).mpr ht
  | @oversized before after x hfiles htaken' hwritable' hoversized =>
    have hsub : before ++ [x] ⊆ files := by simp [hfiles]
    have hall : ∀ y ∈ file :: (before ++ [x]), Takes p y.1 d :=
      List.forall_mem_cons.mpr ⟨htaken, fun y hy => hback y (hsub hy) (htaken' y hy)⟩
    exact .oversized (file :: before) (by rw [hfiles, List.cons_append]) hall
      (List.forall_mem_cons.mpr ⟨hwritable, hwritable'⟩) hoversized

theorem writes_writeAll {files : List (String × Json)} (hp : Stands p d)
    (hnames : ∀ file ∈ files, IsName file.1) (hnodup : (files.map Prod.fst).Nodup) :
    Writes p files d (writeAll (files.map fun file => (p.join file.1, file.2)) d).1
      (writeAll (files.map fun file => (p.join file.1, file.2)) d).2 := by
  induction files generalizing d with
  | nil => exact .done (by simp) (by simp)
  | cons file files ih =>
    obtain ⟨f, v⟩ := file
    obtain ⟨hf, hrest⟩ := List.forall_mem_cons.mp hnames
    rw [List.map_cons, List.nodup_cons] at hnodup
    simp only [List.map_cons, writeAll, writeJson]
    by_cases htaken : Takes p f d
    · have hwrite := (write_in_eq_ok_iff hp.open hf (v.writeFront .spread)).mpr ⟨htaken, rfl⟩
      simp only [hwrite]
      by_cases hv : v.isWritable .spread = true
      · simp only [hv, if_true]
        have hstands : Stands p (putFiles (home p) (texts [(f, v)]) d) :=
          hp.putFiles (by simpa [texts] using htaken.free)
        exact (ih hstands hrest hnodup.2).cons hnodup.1 htaken hv
      · simp only [hv, if_false, Bool.false_eq_true]
        refine .oversized [] rfl (fun x hx => ?_) (by simp)
          (by simpa using hv)
        rwa [List.mem_singleton.mp hx]
    · split
      · rename_i hwrite
        split at hwrite
        · obtain ⟨rfl, he⟩ := Prod.mk.inj hwrite
          obtain rfl := Except.error.inj he
          exact .refused [] rfl (by simp) (by simp) htaken
        · rename_i hok
          exact absurd ((write_in_eq_ok_iff hp.open hf _).mp hok).1 htaken
      · rename_i hwrite
        split at hwrite
        · simp at hwrite
        · rename_i hok
          exact absurd ((write_in_eq_ok_iff hp.open hf _).mp hok).1 htaken

/-- The numbers of the versions in the directory, in order. -/
def versionsIn (q : List String) (d : Disk) : List Int :=
  ((namesIn q d).filterMap versionOf?).mergeSort (· ≤ ·)

theorem mem_versionsIn_iff {v : Int} :
    v ∈ versionsIn q d ↔ ∃ f ∈ namesIn q d, versionOf? f = some v := by
  rw [versionsIn, List.mem_mergeSort, List.mem_filterMap]

theorem history_eq_ok_iff {identifier : String} :
    history base identifier d = .ok versions ↔
      Stands (directory base (key identifier)) d ∧
          versions = versionsIn (home (directory base (key identifier))) d ∨
        d.hasDirectory (directory base (key identifier)) = .ok false ∧ versions = [] := by
  rw [← hasDirectory_eq_true_iff]
  unfold history
  dsimp only
  split
  · rename_i hlost
    simp [hlost]
  · rename_i hmissing
    simp [hmissing, eq_comm]
  · rename_i hthere
    have hlist := list_eq_ok_iff.mpr ⟨hasDirectory_eq_true_iff.mp hthere, rfl⟩
    simp [hthere, hlist, versionsIn, eq_comm]

theorem history_of_sorted {identifier : String}
    (hp : Stands (directory base (key identifier)) d)
    (hversions :
      (namesIn (home (directory base (key identifier))) d).filterMap versionOf? = versions)
    (hsorted : versions.Pairwise (· ≤ ·)) : history base identifier d = .ok versions := by
  refine history_eq_ok_iff.mpr (.inl ⟨hp, ?_⟩)
  rw [versionsIn, hversions, List.mergeSort_of_pairwise (by simpa using hsorted)]

theorem filterMap_namesIn_put (x : DiskItem) (d : Disk) :
    (namesIn q (d.put (q ++ [f]) x)).filterMap versionOf? =
      if f ∈ namesIn q d then (namesIn q d).filterMap versionOf?
      else (namesIn q d).filterMap versionOf? ++ (versionOf? f).toList := by
  rw [namesIn_put, nameIn?_eq_some_iff.mpr rfl]
  by_cases hf : f ∈ namesIn q d
  · rw [if_pos (mem_namesIn_iff.mp hf), if_pos hf]
  · rw [if_neg fun h => hf (mem_namesIn_iff.mpr h), if_neg hf, List.filterMap_append]
    cases hversion : versionOf? f <;> simp [hversion]

theorem versionsIn_putFiles_of_none {files : List (String × String)}
    (h : ∀ f ∈ files.map Prod.fst, versionOf? f = none) (d : Disk) :
    versionsIn q (putFiles q files d) = versionsIn q d := by
  induction files generalizing d with
  | nil => rfl
  | cons file files ih =>
    obtain ⟨hfile, hrest⟩ := List.forall_mem_cons.mp h
    rw [putFiles_cons, ih hrest, versionsIn, filterMap_namesIn_put, hfile, Option.toList_none,
      List.append_nil, ite_self, versionsIn]

theorem pairwise_versionsIn (q : List String) (d : Disk) : (versionsIn q d).Pairwise (· ≤ ·) :=
  List.pairwise_mergeSort' (· ≤ ·) _

theorem not_mem_namesIn_of_lt (h : ∀ v ∈ versionsIn q d, v < n) : versionName n ∉ namesIn q d :=
  fun hmem => absurd (h n (mem_versionsIn_iff.mpr ⟨_, hmem, versionOf?_versionName n⟩)) (by omega)

/-- A new version with a number above all others comes last. -/
theorem versionsIn_putFiles (text : String) {files : List (String × String)}
    (hn : ∀ v ∈ versionsIn q d, v < n) (h : ∀ f ∈ files.map Prod.fst, versionOf? f = none) :
    versionsIn q (putFiles q ((versionName n, text) :: files) d) = versionsIn q d ++ [n] := by
  rw [putFiles_cons, versionsIn_putFiles_of_none h, versionsIn, filterMap_namesIn_put,
    if_neg (not_mem_namesIn_of_lt hn), versionOf?_versionName, Option.toList_some]
  have hperm : ((namesIn q d).filterMap versionOf? ++ [n]).mergeSort (· ≤ ·) |>.Perm
      (versionsIn q d ++ [n]) :=
    (List.mergeSort_perm _ _).trans ((List.mergeSort_perm _ _).symm.append_right [n])
  refine List.Perm.eq_of_pairwise' (List.pairwise_mergeSort' (· ≤ ·) _) ?_ hperm
  rw [List.pairwise_append]
  refine ⟨pairwise_versionsIn q d, List.pairwise_singleton _ n, fun v hv m hm => ?_⟩
  rw [List.mem_singleton.mp hm]
  exact (hn v hv).le

/-- What a save as version `n` answers when its files have been written, or not. -/
def answer (name : String) (n : Int) : Except FileWriteError Unit → Except StoreError Int
  | .ok () => .ok n
  | .error (.disk e) => .error (.unsaved name e)
  | .error .oversizedInteger => .error .oversizedInteger

/-- What a save does once the number of the new version is known. -/
def saveAs (base : Path) (time : String) (b : Blueprint) (n : Int) (d : Disk) :
    Disk × Except StoreError Int :=
  match d.makeAll (directory base (keyFor b)) with
  | (d, .error e) => (d, .error (.disk e))
  | (d, .ok ()) =>
    let files := savedFiles time (keyFor b) b n
    let written := writeAll (files.map fun f => ((directory base (keyFor b)).join f.1, f.2)) d
    (written.1, answer b.name n written.2)

theorem paths_savedFiles (base : Path) (time : String) (b : Blueprint) (n : Int) :
    (savedFiles time (keyFor b) b n).map (fun f => ((directory base (keyFor b)).join f.1, f.2)) =
      [(versionFile base (keyFor b) n, b.record), (currentFile base (keyFor b), b.record),
        (indexFile base (keyFor b), index time (keyFor b) b n)] := rfl

theorem save_of_history (time : String) (h : history base (keyFor b) d = .ok versions) :
    save base time b d = saveAs base time b (nextVersion versions) d := by
  unfold save
  simp only [h]
  unfold saveAs
  simp only [paths_savedFiles]
  generalize d.makeAll (directory base (keyFor b)) = made
  obtain ⟨d₁, e | u⟩ := made
  · rfl
  · dsimp only
    generalize writeAll _ d₁ = written
    obtain ⟨d', e | u⟩ := written
    · cases e <;> rfl
    · rfl

/-- How a save ends: it gives up before it has changed anything, or it comes to write its files. -/
inductive Saving (base : Path) (time : String) (b : Blueprint) (d : Disk) :
    Disk → Except StoreError Int → Prop
  | unready {e : StoreError} : Saving base time b d d (.error e)
  | writing {versions : List Int} {d₁ d' : Disk} {r : Except FileWriteError Unit}
      (hhistory : history base (keyFor b) d = .ok versions)
      (hready : Readied (directory base (keyFor b)) d d₁)
      (hwrites : Writes (directory base (keyFor b))
        (savedFiles time (keyFor b) b (nextVersion versions)) d₁ d' r) :
      Saving base time b d d' (answer b.name (nextVersion versions) r)

theorem isName_savedFiles (time k : String) (b : Blueprint) (n : Int) :
    ∀ file ∈ savedFiles time k b n, IsName file.1 := by
  simp [savedFiles, isName_versionName, isName_current, isName_index]

theorem saving_save (hbase : Open base d) (time : String) (b : Blueprint) :
    Saving base time b d (save base time b d).1 (save base time b d).2 := by
  cases hhistory : history base (keyFor b) d with
  | error e =>
    unfold save
    simp only [hhistory]
    exact .unready
  | ok versions =>
    rw [save_of_history time hhistory]
    unfold saveAs
    rcases makeAll_key hbase (isKey_keyFor b) with ⟨e, hmake⟩ | ⟨d₁, hready, hmake⟩
    · have hmake : d.makeAll (directory base (keyFor b)) = (d, .error e) := hmake
      simp only [hmake]
      exact .unready
    · have hmake : d.makeAll (directory base (keyFor b)) = (d₁, .ok ()) := hmake
      simp only [hmake]
      exact .writing hhistory hready (writes_writeAll hready.stands
        (isName_savedFiles time (keyFor b) b (nextVersion versions))
        (nodup_savedNames (nextVersion versions)))

section
variable (hd : IsTree d) (hhistory : history base k d = .ok versions) (hkey : key k = k)
  (hready : Readied (directory base k) d d₁)
include hd hhistory hkey hready

theorem versionsIn_of_readied : versionsIn (home (directory base k)) d₁ = versions := by
  rw [versionsIn, hready.namesIn_eq]
  rw [history_eq_ok_iff, hkey] at hhistory
  rcases hhistory with ⟨-, rfl⟩ | ⟨hmissing, rfl⟩
  · rfl
  · have hnone : d.item? (home (directory base k)) ≠ some .directory := by
      cases hready with
      | there h =>
        rw [hasDirectory_eq_true_iff.mpr h] at hmissing
        cases hmissing
      | made hlocate hnone => simp [hnone]
    simp [hd.namesIn_eq_nil hnone]

theorem lt_nextVersion_of_history : ∀ v ∈ versions, v < nextVersion versions := by
  obtain rfl := versionsIn_of_readied hd hhistory hkey hready
  exact fun v hv => lt_nextVersion (pairwise_versionsIn _ _) hv

theorem not_has_version (hroom : Room (directory base k) (versionName (nextVersion versions))) :
    d.has (versionFile base k (nextVersion versions)) = .ok false := by
  have hname := isName_versionName (nextVersion versions)
  have hlt : ∀ v ∈ versionsIn (home (directory base k)) d₁, v < nextVersion versions := by
    rw [versionsIn_of_readied hd hhistory hkey hready]
    exact lt_nextVersion_of_history hd hhistory hkey hready
  have hnone := item?_eq_none_of_not_mem hname (not_mem_namesIn_of_lt hlt)
  have hlookup := lookup_in_of_room hready.stands.open hname hroom
  rw [hready.lookup_eq hd hready.stands.open hname (.inr hroom.name) rfl, hnone] at hlookup
  have hhas : d.has ((directory base k).join (versionName (nextVersion versions))) = .ok false := by
    rw [has, hlookup]
    rfl
  exact hhas

theorem history_of_begun {v : Json} {rest : List (String × Json)}
    (hrest : ∀ file ∈ rest, versionOf? file.1 = none)
    (htaken : ∀ file ∈ (versionName (nextVersion versions), v) :: rest,
      Takes (directory base k) file.1 d₁) :
    let d' := putFiles (home (directory base k))
      (texts ((versionName (nextVersion versions), v) :: rest)) d₁
    Stands (directory base k) d' ∧
      history base k d' = .ok (versions ++ [nextVersion versions]) := by
  intro d'
  have hversions := versionsIn_of_readied hd hhistory hkey hready
  have hlt := lt_nextVersion_of_history hd hhistory hkey hready
  have hstands : Stands (directory base k) d' := stands_written hready.stands htaken
  have hnone : ∀ f ∈ (texts rest).map Prod.fst, versionOf? f = none := by
    rw [map_fst_texts]
    exact List.forall_mem_map.mpr hrest
  refine ⟨hstands, history_eq_ok_iff.mpr (.inl ?_)⟩
  rw [hkey]
  refine ⟨hstands, ?_⟩
  have hlast := versionsIn_putFiles (q := home (directory base k)) (d := d₁)
    (v.writeFront .spread) (hversions.symm ▸ hlt) hnone
  rw [← hversions, ← hlast, hversions]
  rfl

end

/-- A save that succeeds has written a version that was not there. Its number is above all that were
listed and comes last from now on, and everything else on the disk is as it was, but the current
state, the index and the directory itself if it had to be made. -/
theorem save_adds_version (hd : IsTree d) (hbase : Open base d)
    (h : save base time b d = (d', .ok n)) :
    let p := directory base (keyFor b)
    ∃ versions place, history base (keyFor b) d = .ok versions ∧ d'.locate p = .ok place ∧
      d.has (versionFile base (keyFor b) n) = .ok false ∧
      d'.readContent (versionFile base (keyFor b) n) =
        .ok (.text (b.record.writeFront .spread)) ∧
      (∀ v ∈ versions, v < n) ∧ history base (keyFor b) d' = .ok (versions ++ [n]) ∧
      ∀ r, r ≠ place → (∀ f ∈ savedNames n, r ≠ place ++ [f]) → d'.item? r = d.item? r := by
  intro p
  have hsaving := saving_save hbase time b
  rw [h] at hsaving
  generalize hr : (.ok n : Except StoreError Int) = result at hsaving
  cases hsaving with
  | unready => cases hr
  | @writing versions d₁ _ r hhistory hready hwrites =>
    cases hwrites with
    | done htaken hwritable =>
      obtain rfl : n = nextVersion versions := Except.ok.inj hr
      have hkey := key_keyFor b
      have hlt := lt_nextVersion_of_history hd hhistory hkey hready
      obtain ⟨hstands, hafter⟩ := history_of_begun hd hhistory hkey hready
        (by simp [versionOf?_current, versionOf?_index]) htaken
      have hmem : (versionName (nextVersion versions), b.record) ∈
          savedFiles time (keyFor b) b (nextVersion versions) := by simp [savedFiles]
      have hhas := not_has_version hd hhistory hkey hready (htaken _ hmem).room
      have hcontent := readContent_written hready.stands htaken
        (isName_savedFiles time (keyFor b) b (nextVersion versions))
        (nodup_savedNames (nextVersion versions)) hmem
      refine ⟨versions, home p, hhistory, hstands.locate, hhas, hcontent, hlt, hafter,
        fun r hr hfiles => ?_⟩
      have hfiles : ∀ f ∈ (texts (savedFiles time (keyFor b) b (nextVersion versions))).map
          Prod.fst, r ≠ home p ++ [f] := by
        rw [map_fst_texts]
        exact hfiles
      exact (item?_putFiles_of_ne hfiles d₁).trans (hready.item?_eq hr)
    | refused => cases hr
    | oversized => cases hr

def bareLamp : Blueprint := bare "Lamp" "/Game/Lamp" 0

theorem keyFor_bareLamp : keyFor bareLamp = "Game_Lamp" := by decide +kernel

/-- A store where files have been put by hand into the directory of the lamp. -/
def lampFiles (files : List (String × String)) : Disk :=
  putFiles ["blueprints", "Game_Lamp"] files
    ⟨[(["blueprints"], .directory), (["blueprints", "Game_Lamp"], .directory)]⟩

/-- Versions with numbers in many spellings. -/
def strayVersions : Disk :=
  lampFiles (["v-4.json", "v٣.json", "v07.json", "v1_0.json", "vx.json"].map fun f => (f, ""))

theorem save_adds_version_strayVersions :
    IsTree strayVersions ∧ Open blueprints strayVersions ∧
      ∃ d, save blueprints "" bareLamp strayVersions = (d, .ok 11) ∧
        history blueprints "Game_Lamp" strayVersions = .ok [-4, 3, 7, 10] ∧
        history blueprints "Game_Lamp" d = .ok [-4, 3, 7, 10, 11] ∧
        strayVersions.has (versionFile blueprints "Game_Lamp" 11) = .ok false ∧
        d.item? ["blueprints", "Game_Lamp", "vx.json"] = some (.file (.text "")) := by
  have htree : IsTree strayVersions := by decide +kernel
  have hopen : Open blueprints strayVersions := ⟨by decide +kernel, by decide +kernel⟩
  have hhistory : history blueprints "Game_Lamp" strayVersions = .ok [-4, 3, 7, 10] :=
    history_of_sorted ⟨by decide +kernel, by decide +kernel⟩ (by decide +kernel) (by decide)
  have hanswer : (save blueprints "" bareLamp strayVersions).2 = .ok 11 := by
    rw [save_of_history "" (keyFor_bareLamp ▸ hhistory)]
    decide +kernel
  generalize hsave : save blueprints "" bareLamp strayVersions = saved at hanswer
  obtain ⟨d, r⟩ := saved
  obtain rfl : r = .ok 11 := hanswer
  obtain ⟨versions, place, hbefore, hplace, hhas, -, -, hafter, hrest⟩ :=
    save_adds_version htree hopen hsave
  rw [keyFor_bareLamp] at hbefore hplace hhas hafter
  obtain rfl := Except.ok.inj (hbefore.symm.trans hhistory)
  obtain rfl : ["blueprints", "Game_Lamp"] = place :=
    (by decide +kernel : _ = home (directory blueprints "Game_Lamp")).trans
      (home_eq_of_locate hplace)
  exact ⟨htree, hopen, d, rfl, hhistory, hafter, hhas,
    (hrest _ (by decide) (by decide +kernel)).trans (by decide +kernel)⟩

end Store

end BlueprintPatch

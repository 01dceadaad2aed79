import BlueprintPatch.Proofs.Shelving

/-! The versions of a blueprint. Saves under a key are numbered from one on, and every number gives
back what was saved under it, until the key is deleted and the numbers begin anew. -/
namespace BlueprintPatch.Store

open Disk

/-- A save and what came of it. -/
structure Attempt where
  time : String
  blueprint : Blueprint
  outcome : Outcome
deriving DecidableEq

namespace Attempt

/-- Whether the blueprint can be written in full. -/
def isRecorded (a : Attempt) : Bool := a.blueprint.record.isWritable .spread

/-- What the files for the blueprint hold. -/
def item (a : Attempt) : DiskItem := .file (.text (a.blueprint.record.writeFront .spread))

end Attempt

/-- What becomes of a save as version `n`, if only a number with too many digits can stop it. -/
def expected (k : String) (n : Int) (time : String) (b : Blueprint) : Outcome :=
  if b.record.isWritable .spread && (index time k b n).isWritable .spread then .saved n
  else .unsaved .oversizedInteger

/-- One more request: a save under the key is tried, and a deletion of the key begins anew. -/
def attempt (k : String) (attempts : List Attempt) : Call × Outcome → List Attempt
  | (.save time b, outcome) => if keyFor b = k then attempts ++ [⟨time, b, outcome⟩] else attempts
  | (.delete identifier, _) => if key identifier = k then [] else attempts

/-- The saves under the key since its last deletion. -/
def attempts (k : String) (events : List (Call × Outcome)) : List Attempt :=
  events.foldl (attempt k) []

def numbers (n : Nat) : List Int := (List.range n).map fun i : Nat => (i : Int) + 1

theorem mem_numbers_iff {n : Nat} {v : Int} : v ∈ numbers n ↔ ∃ i < n, v = (i : Int) + 1 := by
  simp [numbers, eq_comm]

theorem pairwise_numbers (n : Nat) : (numbers n).Pairwise (· < ·) := by
  rw [numbers, List.pairwise_map]
  exact List.pairwise_lt_range.imp fun h => by omega

theorem nextVersion_numbers (n : Nat) : nextVersion (numbers n) = (n : Int) + 1 := by
  cases n with
  | zero => rfl
  | succ n => simp [nextVersion, numbers, List.range_succ]

variable {base : Path} {k : String} {d d' : Disk} {saves : List Attempt}

/-- The key is a name below the store, and short enough for `n` versions. -/
structure Usable (base : Path) (k : String) (n : Nat) : Prop where
  apart : Apart base k
  current : Fits base k "current.json"
  index : Fits base k "index.json"
  versions : ∀ i < n, Fits base k (versionName (i + 1))

theorem Usable.mono {m n : Nat} (h : Usable base k n) (hm : m ≤ n) : Usable base k m where
  apart := h.apart
  current := h.current
  index := h.index
  versions i hi := h.versions i (by omega)

/-- The directory of the key after the saves. -/
structure Shelf (base : Path) (k : String) (saves : List Attempt) (d : Disk) : Prop where
  directory : d.item? (home base ++ [k]) = if saves = [] then none else some .directory
  nodup : (namesIn (home base ++ [k]) d).Nodup
  only : ∀ f ∈ namesIn (home base ++ [k]) d, ∃ i < saves.length, f ∈ savedNames (i + 1)
  files : ∀ f, IsName f → d.item? (home base ++ [k, f]) ≠ some .directory
  version : ∀ (i : Nat) (a : Attempt), saves[i]? = some a →
    d.item? (home base ++ [k, versionName (i + 1)]) = some a.item
  current : d.item? (home base ++ [k, "current.json"]) =
    (saves.filter Attempt.isRecorded).getLast?.map Attempt.item
  outcome : ∀ (i : Nat) (a : Attempt), saves[i]? = some a →
    a.outcome = expected k (i + 1) a.time a.blueprint

theorem item?_of_not_mem {f : String} (hf : IsName f) (h : f ∉ namesIn (home base ++ [k]) d) :
    d.item? (home base ++ [k, f]) = none := by
  rw [place_eq]
  exact item?_eq_none_of_not_mem hf h

theorem mem_namesIn_of_item? {f : String} (hf : IsName f) {x : DiskItem}
    (h : d.item? (home base ++ [k, f]) = some x) : f ∈ namesIn (home base ++ [k]) d := by
  by_contra hmem
  rw [item?_of_not_mem hf hmem] at h
  cases h

theorem shelf_nil (hdirectory : d.item? (home base ++ [k]) = none)
    (hnames : namesIn (home base ++ [k]) d = []) : Shelf base k [] d where
  directory := hdirectory
  nodup := by simp [hnames]
  only := by simp [hnames]
  files f hf := by
    have hnone : d.item? (home base ++ [k, f]) = none := item?_of_not_mem hf (by simp [hnames])
    simp [hnone]
  version := by simp
  current := item?_of_not_mem isName_current (by simp [hnames])
  outcome := by simp

theorem Shelf.of_within {k' : String} (h : Shelf base k saves d)
    (hd : Within (home base ++ [k']) d d') (hne : k' ≠ k) : Shelf base k saves d' := by
  have hoff : ∀ rest, ¬ home base ++ [k'] <+: home base ++ k :: rest := by
    intro rest hbelow
    have hsame := (List.prefix_append_right_inj (home base)).mp hbelow
    simp_all
  have hitem : ∀ rest, d'.item? (home base ++ k :: rest) = d.item? (home base ++ k :: rest) :=
    fun rest => hd.item?_eq (hoff rest)
  have hnames : namesIn (home base ++ [k]) d' = namesIn (home base ++ [k]) d :=
    namesIn_of_within hd fun f => by simpa using hoff [f]
  exact
    { directory := (hitem []).trans h.directory
      nodup := hnames ▸ h.nodup
      only := hnames ▸ h.only
      files := fun f hf => hitem [f] ▸ h.files f hf
      version := fun i a ha => (hitem _).trans (h.version i a ha)
      current := (hitem _).trans h.current
      outcome := h.outcome }

theorem versionOf?_current : versionOf? "current.json" = none := by decide

theorem versionOf?_index : versionOf? "index.json" = none := by decide

theorem versionOf?_of_mem_savedNames {f : String} {n v : Int} (h : f ∈ savedNames n)
    (hv : versionOf? f = some v) : f = versionName n ∧ v = n := by
  simp only [savedNames, List.mem_cons, List.not_mem_nil, or_false] at h
  rcases h with rfl | rfl | rfl
  · rw [versionOf?_versionName] at hv
    exact ⟨rfl, (Option.some.inj hv).symm⟩
  · rw [versionOf?_current] at hv
    cases hv
  · rw [versionOf?_index] at hv
    cases hv

theorem Shelf.sorted_versions (h : Shelf base k saves d) :
    ((namesIn (home base ++ [k]) d).filterMap versionOf?).mergeSort (· ≤ ·) =
      numbers saves.length := by
  have hmem : ∀ v, v ∈ (namesIn (home base ++ [k]) d).filterMap versionOf? ↔
      v ∈ numbers saves.length := by
    intro v
    rw [List.mem_filterMap, mem_numbers_iff]
    constructor
    · rintro ⟨f, hf, hv⟩
      obtain ⟨i, hi, hsaved⟩ := h.only f hf
      exact ⟨i, hi, (versionOf?_of_mem_savedNames hsaved hv).2⟩
    · rintro ⟨i, hi, rfl⟩
      have hversion := h.version i saves[i] (List.getElem?_eq_getElem hi)
      exact ⟨_, mem_namesIn_of_item? (isName_versionName _) hversion, versionOf?_versionName _⟩
  -- two names can write one number ("v1.json" and "v01.json"), but not two names on the shelf
  have hnodup : ((namesIn (home base ++ [k]) d).filterMap versionOf?).Nodup := by
    rw [List.Nodup, List.pairwise_filterMap]
    refine h.nodup.imp_of_mem fun {f g} hf hg hne v hv w hw heq => hne ?_
    obtain ⟨i, -, hi⟩ := h.only f hf
    obtain ⟨j, -, hj⟩ := h.only g hg
    obtain ⟨rfl, rfl⟩ := versionOf?_of_mem_savedNames hi hv
    obtain ⟨rfl, rfl⟩ := versionOf?_of_mem_savedNames hj hw
    rw [heq]
  have hperm := (List.perm_ext_iff_of_nodup hnodup ((pairwise_numbers _).imp ne_of_lt)).mpr hmem
  have hsorted := List.pairwise_mergeSort' (· ≤ ·)
    ((namesIn (home base ++ [k]) d).filterMap versionOf?)
  have hnumbers : (numbers saves.length).Pairwise (· ≤ ·) := (pairwise_numbers _).imp le_of_lt
  exact List.Perm.eq_of_pairwise' hsorted hnumbers ((List.mergeSort_perm _ _).trans hperm)

theorem Shelf.history_eq {identifier : String} {n : Nat} (h : Shelf base k saves d)
    (hp : Open base d) (hu : Usable base k n) (hid : key identifier = k) :
    history base identifier d = .ok (numbers saves.length) := by
  have hlocate := hu.current.locate hp hu.apart.isName isName_current
  have hsorted := h.sorted_versions
  unfold history
  simp only [Store.directory, hid, hasDirectory, lookup, hlocate, h.directory, Except.map]
  by_cases hsaves : saves = []
  · simp [hsaves, numbers]
  · have hlist : d.list (base.join k) = .ok (namesIn (home base ++ [k]) d) := by
      simp only [list, hlocate, bind, Except.bind, h.directory, if_neg hsaves]
      rfl
    simp only [hsaves, if_false, decide_true, hlist, hsorted]

/-- The directory of the key has been made, if need be, and nothing else has changed. -/
structure Made (base : Path) (k : String) (d d' : Disk) : Prop where
  opened : Open base d'
  directory : d'.item? (home base ++ [k]) = some .directory
  names : namesIn (home base ++ [k]) d' = namesIn (home base ++ [k]) d
  files : ∀ f, d'.item? (home base ++ [k, f]) = d.item? (home base ++ [k, f])

theorem Shelf.made {n : Nat} (h : Shelf base k saves d) (hp : Open base d) (hu : Usable base k n) :
    ∃ d', d.makeAll (base.join k) = (d', .ok ()) ∧ Made base k d d' := by
  obtain ⟨hthere, hnew⟩ := makeAll_eq hp hu.apart.isName isName_current hu.current
  have hdirectory := h.directory
  by_cases hsaves : saves = []
  · rw [if_pos hsaves] at hdirectory
    refine ⟨_, hnew hdirectory, hp.of_within hu.apart (within_put (List.prefix_refl _) _ d), ?_,
      namesIn_put_self k _ d, fun f => ?_⟩
    · exact item?_put_self (isBase_append hu.apart.isName _) _ d
    · exact item?_put_of_ne (ne_of_below (home base)).symm _ d
  · rw [if_neg hsaves] at hdirectory
    exact ⟨d, hthere hdirectory, hp, hdirectory, rfl, fun _ => rfl⟩

def savedFiles (time k : String) (b : Blueprint) (n : Int) : List (String × Json) :=
  [(versionName n, b.record), ("current.json", b.record), ("index.json", index time k b n)]

theorem written_savedFiles (time k : String) (b : Blueprint) (n : Int) :
    written (savedFiles time k b n) =
      (versionName n, b.record.writeFront .spread) ::
        if b.record.isWritable .spread then
          [("current.json", b.record.writeFront .spread),
            ("index.json", (index time k b n).writeFront .spread)]
        else [] := by
  cases h : b.record.isWritable .spread <;> simp [savedFiles, written, h]

section

variable {time : String} {b : Blueprint} {n : Int}

theorem fst_written_subset : (written (savedFiles time k b n)).map Prod.fst ⊆ savedNames n :=
  written_subset _

theorem isName_of_written {x : String × String} (hx : x ∈ written (savedFiles time k b n)) :
    IsName x.1 := by
  have hmem := fst_written_subset (List.mem_map_of_mem hx)
  simp only [savedNames, List.mem_cons, List.not_mem_nil, or_false] at hmem
  rcases hmem with hx | hx | hx <;> rw [hx]
  exacts [isName_versionName _, isName_current, isName_index]

theorem nodup_written (time k : String) (b : Blueprint) (n : Int) :
    ((written (savedFiles time k b n)).map Prod.fst).Nodup := by
  have hsaved := nodup_savedNames n
  rw [written_savedFiles]
  cases b.record.isWritable .spread <;> simp_all [savedNames]

theorem version_mem_written :
    (versionName n, b.record.writeFront .spread) ∈ written (savedFiles time k b n) := by
  simp [written_savedFiles]

theorem current_mem_written (h : b.record.isWritable .spread = true) :
    ("current.json", b.record.writeFront .spread) ∈ written (savedFiles time k b n) := by
  simp [written_savedFiles, h]

theorem current_not_mem_written (h : b.record.isWritable .spread = false) :
    "current.json" ∉ (written (savedFiles time k b n)).map Prod.fst := by
  have hversion : "current.json" ≠ versionName n := (versionName_ne versionOf?_current _).symm
  simpa [written_savedFiles, h] using hversion

end

theorem save_eq (time : String) {b : Blueprint} (h : Shelf base (keyFor b) saves d)
    (hp : Open base d) (hu : Usable base (keyFor b) (saves.length + 1)) :
    ∃ d', Made base (keyFor b) d d' ∧
      let files := savedFiles time (keyFor b) b (saves.length + 1)
      Outcome.ofSave (save base time b d) = (fileAll base (keyFor b) (written files) d',
        expected (keyFor b) (saves.length + 1) time b) := by
  obtain ⟨d', hmake, hmade⟩ := h.made hp hu
  refine ⟨d', hmade, ?_⟩
  intro files
  have hnames : ∀ x ∈ files, IsName x.1 ∧ Fits base (keyFor b) x.1 := by
    have hversion := hu.versions saves.length (by omega)
    simp [files, savedFiles, isName_versionName, isName_current, isName_index, hversion,
      hu.current, hu.index]
  have hwrite := writeAll_eq hu.apart hmade.opened hmade.directory fun x hx =>
    ⟨(hnames x hx).1, (hnames x hx).2, hmade.files x.1 ▸ h.files x.1 (hnames x hx).1⟩
  have hhistory := h.history_eq hp hu (key_keyFor b)
  unfold save
  simp only [hhistory, nextVersion_numbers, directory, hmake]
  have hpaths : [(versionFile base (keyFor b) (saves.length + 1), b.record),
      (currentFile base (keyFor b), b.record),
      (indexFile base (keyFor b), index time (keyFor b) b (saves.length + 1))] =
        files.map fun x => ((base.join (keyFor b)).join x.1, x.2) := rfl
  rw [hpaths, hwrite]
  cases hrecord : b.record.isWritable .spread <;>
    cases hindex : (index time (keyFor b) b (saves.length + 1)).isWritable .spread <;>
    simp [files, savedFiles, hrecord, hindex, Outcome.ofSave, expected]

theorem getElem?_concat_cases {a a' : Attempt} {i : Nat} (h : (saves ++ [a])[i]? = some a') :
    (i < saves.length ∧ saves[i]? = some a') ∨ (i = saves.length ∧ a' = a) := by
  rcases Nat.lt_trichotomy i saves.length with hi | hi | hi
  · rw [List.getElem?_append_left hi] at h
    exact .inl ⟨hi, h⟩
  · rw [hi, List.getElem?_concat_length] at h
    exact .inr ⟨hi, (Option.some.inj h).symm⟩
  · have hlength := (List.getElem?_eq_some_iff.mp h).1
    rw [List.length_append, List.length_singleton] at hlength
    omega

/-- The files of a save stand on the shelf beside those of the saves before it. -/
theorem Shelf.add (h : Shelf base k saves d) (hmade : Made base k d d') {a : Attempt}
    (houtcome : a.outcome = expected k (saves.length + 1) a.time a.blueprint) :
    Shelf base k (saves ++ [a])
      (fileAll base k (written (savedFiles a.time k a.blueprint (saves.length + 1))) d') := by
  have hnames : ∀ x ∈ written (savedFiles a.time k a.blueprint (saves.length + 1)), IsName x.1 :=
    fun _ => isName_of_written
  have hnodup := nodup_written a.time k a.blueprint (saves.length + 1)
  exact
    { directory := by
        rw [item?_key_fileAll, hmade.directory, if_neg (by simp)]
      nodup := nodup_namesIn_fileAll _ (hmade.names ▸ h.nodup)
      only := by
        intro f hf
        rw [List.length_append, List.length_singleton]
        rcases mem_namesIn_fileAll.mp hf with hf | hf
        · exact ⟨saves.length, by omega, fst_written_subset hf⟩
        · obtain ⟨i, hi, hsaved⟩ := h.only f (hmade.names ▸ hf)
          exact ⟨i, by omega, hsaved⟩
      files := fun f hf => not_directory_fileAll hnames (hmade.files f ▸ h.files f hf)
      version := by
        intro i a' ha'
        rcases getElem?_concat_cases ha' with ⟨hi, hold⟩ | ⟨rfl, rfl⟩
        · have hother : versionName (i + 1) ∉
              (written (savedFiles a.time k a.blueprint (saves.length + 1))).map Prod.fst :=
            fun hmem => versionName_not_mem_savedNames (by omega) (fst_written_subset hmem)
          rw [item?_fileAll_of_not_mem hother, hmade.files]
          exact h.version i a' hold
        · exact item?_fileAll_of_mem hnames hnodup version_mem_written d'
      current := by
        rw [List.filter_append]
        cases hrecord : a.isRecorded with
        | true =>
          rw [item?_fileAll_of_mem hnames hnodup (current_mem_written hrecord) d']
          simp [hrecord, Attempt.item]
        | false =>
          rw [item?_fileAll_of_not_mem (current_not_mem_written hrecord), hmade.files, h.current]
          simp [hrecord]
      outcome := by
        intro i a' ha'
        rcases getElem?_concat_cases ha' with ⟨-, hold⟩ | ⟨rfl, rfl⟩
        · exact h.outcome i a' hold
        · exact houtcome }

theorem Shelf.save (time : String) {b : Blueprint} (h : Shelf base (keyFor b) saves d)
    (hp : Open base d) (hu : Usable base (keyFor b) (saves.length + 1)) :
    let r := (Call.save time b).perform base d
    Shelf base (keyFor b) (saves ++ [⟨time, b, r.2⟩]) r.1 := by
  obtain ⟨d', hmade, hsave⟩ := save_eq time h hp hu
  simp only [Call.perform, hsave]
  exact h.add hmade (a := ⟨time, b, _⟩) rfl

theorem Shelf.delete {identifier : String} {n : Nat} (h : Shelf base k saves d) (hp : Open base d)
    (hu : Usable base k n) (hid : key identifier = k) :
    Shelf base k [] ((Call.delete identifier).perform base d).1 := by
  have hlocate := hu.current.locate hp hu.apart.isName isName_current
  have hhas : d.has (base.join k) = .ok (d.item? (home base ++ [k])).isSome := by
    simp only [has, lookup, hlocate, Except.map]
  have hdirectory := h.directory
  by_cases hsaves : saves = []
  · rw [if_pos hsaves] at hdirectory
    have hdelete : Store.delete base identifier d = .ok (d, false) := by
      unfold Store.delete
      simp only [Store.directory, hid]
      rw [hhas, hdirectory]
      rfl
    simp only [Call.perform, hdelete, Outcome.ofDelete]
    exact hsaves ▸ h
  · rw [if_neg hsaves] at hdirectory
    have hremove : d.removeAll (base.join k) =
        .ok ⟨d.items.filter fun i => !(home base ++ [k]).isPrefixOf i.1⟩ := by
      simp only [removeAll, hlocate, bind, Except.bind, hdirectory]
    have hdelete : Store.delete base identifier d =
        .ok (⟨d.items.filter fun i => !(home base ++ [k]).isPrefixOf i.1⟩, true) := by
      unfold Store.delete
      simp only [Store.directory, hid]
      rw [hhas, hdirectory]
      simp only [Option.isSome_some, hremove]
    simp only [Call.perform, hdelete, Outcome.ofDelete]
    exact shelf_nil (item?_remove (isBase_append hu.apart.isName _) d) (namesIn_remove _ d)

theorem Shelf.perform {c : Call} (h : Shelf base k saves d) (hp : Open base d)
    (hu : Usable base k (saves.length + 1)) (hc : Apart base c.key) :
    Shelf base k (attempt k saves (c, (c.perform base d).2)) (c.perform base d).1 := by
  by_cases hkey : c.key = k
  · cases c with
    | save time b =>
      obtain rfl : keyFor b = k := hkey
      simp only [attempt, if_true]
      exact h.save time hp hu
    | delete identifier =>
      have hid : key identifier = k := hkey
      simp only [attempt, hid, if_true]
      exact h.delete hp hu hid
  · -- a request under another key stays below the directory of that key
    have hsame : attempt k saves (c, (c.perform base d).2) = saves := by
      cases c with
      | save time b =>
        have hne : keyFor b ≠ k := hkey
        simp only [attempt, if_neg hne]
      | delete identifier =>
        have hne : key identifier ≠ k := hkey
        simp only [attempt, if_neg hne]
    rw [hsame]
    exact h.of_within (within_perform hp hc rfl) hkey

theorem length_attempt_le (k : String) (saves : List Attempt) (event : Call × Outcome) :
    (attempt k saves event).length ≤ saves.length + 1 := by
  obtain ⟨c, outcome⟩ := event
  cases c <;> simp only [attempt] <;> split <;> simp

theorem shelf_performAll {calls : List Call} (h : Shelf base k saves d) (hp : Open base d)
    (hcalls : ∀ c ∈ calls, Apart base c.key) (hu : Usable base k (saves.length + calls.length)) :
    Shelf base k ((performAll base calls d).2.foldl (attempt k) saves)
      (performAll base calls d).1 := by
  induction calls generalizing d saves with
  | nil => exact h
  | cons c calls ih =>
    obtain ⟨hc, hrest⟩ := List.forall_mem_cons.mp hcalls
    rw [List.length_cons] at hu
    have hstep := h.perform hp (hu.mono (by omega)) hc
    have hlength := length_attempt_le k saves (c, (c.perform base d).2)
    refine ih hstep (hp.of_within hc (within_perform hp hc rfl)) hrest (hu.mono ?_)
    exact (Nat.add_le_add_right hlength calls.length).trans (by omega)

theorem length_foldl_attempt_le (k : String) (saves : List Attempt)
    (events : List (Call × Outcome)) :
    (events.foldl (attempt k) saves).length ≤ saves.length + events.length := by
  induction events generalizing saves with
  | nil => simp
  | cons event events ih =>
    have hfirst := length_attempt_le k saves event
    have hrest := ih (attempt k saves event)
    rw [List.foldl_cons, List.length_cons]
    omega

section
variable {identifier : String} {n : Nat} (h : Shelf base k saves d) (hp : Open base d)
  (hu : Usable base k n) (hid : key identifier = k)
include h hp hu

theorem Shelf.loadFile_of_item {f : String} (hf : IsName f) (hfits : Fits base k f) {a : Attempt}
    (ha : a.isRecorded = true) (hitem : d.item? (home base ++ [k, f]) = some a.item) :
    loadFile ((base.join k).join f) d = .ok (some a.blueprint.quiet.draft) := by
  have hdirectory : d.item? (home base ++ [k]) = some .directory := by
    have hnames := mem_namesIn_of_item? hf hitem
    obtain ⟨i, hi, -⟩ := h.only f hnames
    rw [h.directory, if_neg (List.ne_nil_of_length_pos (by omega))]
  exact loadFile_of_stored hp hu.apart.isName hf ⟨ha, hfits, hdirectory, hitem⟩

theorem Shelf.loadFile_of_missing {f : String} (hf : IsName f) (hfits : Fits base k f)
    (hitem : d.item? (home base ++ [k, f]) = none) : loadFile ((base.join k).join f) d = .ok none := by
  have hhas : d.has ((base.join k).join f) = .ok false := by
    have hdirectory := h.directory
    by_cases hsaves : saves = []
    · rw [if_pos hsaves] at hdirectory
      exact has_of_missing hp hu.apart.isName hf hfits hdirectory
    · rw [if_neg hsaves] at hdirectory
      rw [has_eq hp hu.apart.isName hf hfits hdirectory, hitem, Option.isSome_none]
  simp only [loadFile, hhas]

include hid

theorem Shelf.load_current :
    load base identifier none d =
      .ok ((saves.filter Attempt.isRecorded).getLast?.map (·.blueprint.quiet.draft)) := by
  unfold load currentFile Store.directory
  rw [hid]
  have hcurrent := h.current
  cases hlast : (saves.filter Attempt.isRecorded).getLast? with
  | none =>
    rw [hlast] at hcurrent
    exact h.loadFile_of_missing hp hu isName_current hu.current hcurrent
  | some a =>
    rw [hlast] at hcurrent
    have hrecorded := (List.mem_filter.mp (List.mem_of_getLast? hlast)).2
    exact h.loadFile_of_item hp hu isName_current hu.current hrecorded hcurrent

theorem Shelf.load_version {i : Nat} (hi : i < n) {a : Attempt} (ha : saves[i]? = some a)
    (hrecorded : a.isRecorded = true) :
    load base identifier (some (i + 1)) d = .ok (some a.blueprint.quiet.draft) := by
  unfold load versionFile Store.directory
  rw [hid]
  exact h.loadFile_of_item hp hu (isName_versionName _) (hu.versions i hi) hrecorded
    (h.version i a ha)

/-- Once the directory is there, a number that makes the name of the file too long is an error. -/
theorem Shelf.load_too_long (hsaves : saves ≠ []) {v : Int}
    (hfits : ¬ Fits base k (versionName v)) : ∃ e, load base identifier (some v) d = .error e := by
  have hdirectory := h.directory
  rw [if_neg hsaves] at hdirectory
  have hname := isName_versionName v
  obtain ⟨e, hhas⟩ := has_of_not_fits hp hu.apart.isName hname isName_current hu.current hdirectory
    (not_mem_versionName (by decide) rfl v) hfits
  have hload : loadFile ((base.join k).join (versionName v)) d = .error (.disk e) := by
    simp only [loadFile, hhas]
  refine ⟨.disk e, ?_⟩
  unfold load versionFile Store.directory
  rw [hid]
  exact hload

theorem Shelf.load_other {v : Int} (hv : v ∉ numbers saves.length)
    (hfits : Fits base k (versionName v)) : load base identifier (some v) d = .ok none := by
  have hmissing : versionName v ∉ namesIn (home base ++ [k]) d := by
    intro hmem
    obtain ⟨i, hi, hsaved⟩ := h.only _ hmem
    have hnumber := (versionOf?_of_mem_savedNames hsaved (versionOf?_versionName v)).2
    exact hv (mem_numbers_iff.mpr ⟨i, hi, hnumber⟩)
  have hname := isName_versionName v
  unfold load versionFile Store.directory
  rw [hid]
  exact h.loadFile_of_missing hp hu hname hfits (item?_of_not_mem hname hmissing)

end

/-- Nothing is in the directory of the key, nor is it there. -/
def Unused (base : Path) (k : String) (d : Disk) : Prop :=
  ∀ i ∈ d.items, ¬ home base ++ [k] <+: i.1

theorem Unused.shelf (h : Unused base k d) (hk : IsName k) : Shelf base k [] d := by
  refine shelf_nil ?_ (List.eq_nil_iff_forall_not_mem.mpr fun f hf => ?_)
  · simp only [item?, isBase_append hk, Bool.false_eq_true, if_false, List.lookup_eq_none_iff]
    intro i hi
    have hne : home base ++ [k] ≠ i.1 := fun heq => h i hi (heq ▸ List.prefix_refl _)
    simpa using hne
  · obtain ⟨x, hx⟩ := lookup_isSome_iff.mp (mem_namesIn_iff.mp hf)
    exact h _ hx (List.prefix_append _ [f])

/-- Every version is kept. The saves under a key since its last deletion are numbered from one on,
each number gives the blueprint that was saved under it, and the current state is the last of them;
no other number gives anything, but one that makes the name of the file too long is an error. A save
whose record has a number with too many digits still takes a number. -/
theorem every_version_kept {calls : List Call} {identifier : String}
    (hcreate : (create base d).2 = .ok ()) (hunused : Unused base (key identifier) (create base d).1)
    (hcalls : ∀ c ∈ calls, Apart base c.key) (hkey : Usable base (key identifier) calls.length) :
    let run := performAll base calls (create base d).1
    let saves := attempts (key identifier) run.2
    (∀ (i : Nat) (a : Attempt), saves[i]? = some a →
      a.outcome = expected (key identifier) (i + 1) a.time a.blueprint) ∧
    history base identifier run.1 = .ok (numbers saves.length) ∧
    (∀ (i : Nat) (a : Attempt), saves[i]? = some a → a.isRecorded = true →
      load base identifier (some (i + 1)) run.1 = .ok (some a.blueprint.quiet.draft) ∧
      (a.blueprint.HasFinitePositions → a.blueprint.quiet = a.blueprint)) ∧
    load base identifier none run.1 =
      .ok ((saves.filter Attempt.isRecorded).getLast?.map (·.blueprint.quiet.draft)) ∧
    ∀ v, v ∉ numbers saves.length →
      (Fits base (key identifier) (versionName v) →
        load base identifier (some v) run.1 = .ok none) ∧
      (saves ≠ [] → ¬ Fits base (key identifier) (versionName v) →
        ∃ e, load base identifier (some v) run.1 = .error e) := by
  intro run saves
  have hcreated : Open base (create base d).1 := open_of_makeAll (Prod.ext rfl hcreate)
  have hopen : Open base run.1 := open_performAll hcreated hcalls
  have hshelf : Shelf base (key identifier) saves run.1 :=
    shelf_performAll (hunused.shelf hkey.apart.isName) hcreated hcalls (by simpa using hkey)
  have hlength : saves.length ≤ calls.length := by
    have hle := length_foldl_attempt_le (key identifier) [] run.2
    have hevents : run.2.length = calls.length := by
      rw [← List.length_map, map_performAll]
    rwa [List.length_nil, Nat.zero_add, hevents] at hle
  refine ⟨hshelf.outcome, hshelf.history_eq hopen hkey rfl, fun i a ha hrecorded => ⟨?_, ?_⟩,
    hshelf.load_current hopen hkey rfl, fun v hv => ⟨fun hfits => ?_, fun hsome hfits => ?_⟩⟩
  · have hi := (List.getElem?_eq_some_iff.mp ha).1
    exact hshelf.load_version hopen hkey rfl (hi.trans_le hlength) ha hrecorded
  · exact Blueprint.quiet_of_finite
  · exact hshelf.load_other hopen hkey rfl hv hfits
  · exact hshelf.load_too_long hopen hkey rfl hsome hfits

/-- A gate is saved, deleted and saved twice more, and a door is saved in between. -/
def gateAgain : List Call :=
  [.save "" (bare "Gate" "/Game/Gate" 1), .save "" (bare "Door" "/Game/Door" 1),
    .delete "/Game/Gate", .save "" (bare "Gate" "/Game/Gate" 2),
    .save "" (bare "Gate" "/Game/Gate" 3)]

theorem every_version_kept_gateAgain :
    let run := performAll blueprints gateAgain (create blueprints .empty).1
    let saves := attempts (key "/Game/Gate") run.2
    (create blueprints .empty).2 = .ok () ∧
    Unused blueprints (key "/Game/Gate") (create blueprints .empty).1 ∧
    (∀ c ∈ gateAgain, Apart blueprints c.key) ∧ Usable blueprints (key "/Game/Gate") 5 ∧
    saves = [⟨"", bare "Gate" "/Game/Gate" 2, .saved 1⟩, ⟨"", bare "Gate" "/Game/Gate" 3, .saved 2⟩] ∧
    history blueprints "/Game/Gate" run.1 = .ok [1, 2] ∧
    load blueprints "/Game/Gate" (some 1) run.1 = .ok (some (bare "Gate" "/Game/Gate" 2).draft) ∧
    load blueprints "/Game/Gate" none run.1 = .ok (some (bare "Gate" "/Game/Gate" 3).draft) ∧
    load blueprints "/Game/Gate" (some 3) run.1 = .ok none := by
  intro run saves
  have hunused : Unused blueprints (key "/Game/Gate") (create blueprints .empty).1 := by
    unfold Unused
    decide +kernel
  have hcalls : ∀ c ∈ gateAgain, Apart blueprints c.key := by decide +kernel
  have hkey : Usable blueprints (key "/Game/Gate") 5 :=
    ⟨by decide +kernel, by decide +kernel, by decide +kernel, by decide +kernel⟩
  have hsaves : saves =
      [⟨"", bare "Gate" "/Game/Gate" 2, .saved 1⟩, ⟨"", bare "Gate" "/Game/Gate" 3, .saved 2⟩] := by
    decide +kernel
  obtain ⟨-, hhistory, hversion, hcurrent, hother⟩ :=
    every_version_kept create_blueprints hunused hcalls hkey
  have hrecorded : ∀ a ∈ saves, a.isRecorded = true := by
    rw [hsaves]
    decide +kernel
  have hlength : numbers saves.length = [1, 2] := by
    rw [hsaves]
    rfl
  have hfirst : saves[0]? = some ⟨"", bare "Gate" "/Game/Gate" 2, .saved 1⟩ := by
    rw [hsaves]
    rfl
  have hall : saves.filter Attempt.isRecorded = saves := List.filter_eq_self.mpr hrecorded
  refine ⟨create_blueprints, hunused, hcalls, hkey, hsaves, hhistory.trans (congrArg _ hlength), ?_,
    ?_, (hother 3 ?_).1 (by decide +kernel)⟩
  · exact (hversion 0 _ hfirst (hrecorded _ (List.mem_of_getElem? hfirst))).1
  · exact hcurrent.trans (by rw [hall, hsaves]; rfl)
  · rw [hlength]
    decide

def oneLamp : List Call := [.save "" (bare "Lamp" "/Game/Lamp" 0)]

/-- Version 10 to the 250 of a blueprint that has been saved once: instead of nothing there is an
error, since the name of the file is too long. -/
theorem load_fails_for_long_number :
    let run := performAll blueprints oneLamp (create blueprints .empty).1
    run.2 = oneLamp.zip [.saved 1] ∧ (10 ^ 250 : Int) ∉ numbers 1 ∧
    ∃ e, load blueprints "/Game/Lamp" (some (10 ^ 250)) run.1 = .error e := by
  intro run
  have hevents : run.2 = oneLamp.zip [.saved 1] := by decide +kernel
  have hcalls : ∀ c ∈ oneLamp, Apart blueprints c.key := by decide +kernel
  have hkey : Usable blueprints (key "/Game/Lamp") 1 :=
    ⟨by decide +kernel, by decide +kernel, by decide +kernel, by decide +kernel⟩
  have hunused : Unused blueprints (key "/Game/Lamp") (create blueprints .empty).1 := by
    unfold Unused
    decide +kernel
  have hopen : Open blueprints (create blueprints .empty).1 :=
    open_of_makeAll (Prod.ext rfl create_blueprints)
  have hshelf := shelf_performAll (hunused.shelf hkey.apart.isName) hopen hcalls hkey
  have hsaves : run.2.foldl (attempt (key "/Game/Lamp")) [] ≠ [] := by
    rw [hevents]
    decide +kernel
  have hlong : ¬ Fits blueprints (key "/Game/Lamp") (versionName (10 ^ 250)) := fun hfits =>
    hfits.name (by decide +kernel)
  exact ⟨hevents, by decide,
    hshelf.load_too_long (open_performAll hopen hcalls) hkey rfl hsaves hlong⟩

end BlueprintPatch.Store

import BlueprintPatch.Proofs.Adding
import BlueprintPatch.Proofs.Spelling
import BlueprintPatch.Session.Storing

/-! The catalogue of a store: the current states in its directories. One that is corrupted is left
out, whatever is wrong with it, unless it nests too deep to be read. -/
namespace BlueprintPatch

theorem Model.loaded_loadAll (ds : List BlueprintDraft) (m : Model) :
    ∃ made, (m.loadAll ds).loaded = m.loaded ++ made ∧
      List.Forall₂ (fun d b => ∃ n, b = (d.make n).1) ds made := by
  induction ds generalizing m with
  | nil => exact ⟨[], by simp [loadAll], .nil⟩
  | cons d ds ih =>
    obtain ⟨made, hloaded, hmade⟩ := ih (m.load d)
    have hload : (m.load d).loaded = m.loaded ++ [(d.make m.next).1] := rfl
    refine ⟨(d.make m.next).1 :: made, ?_, .cons ⟨m.next, rfl⟩ hmade⟩
    rw [loadAll, List.foldl_cons, ← loadAll, hloaded, hload, List.append_assoc,
      List.singleton_append]

/-- Listing an open store, with loading if `loads` says so; nothing changes if it fails. -/
theorem Session.Action.run_listStore {s : Session} (h : s.desk.opened = true) (loads : Bool) :
    (listStore loads).run s =
      match Store.listAll storeBase s.desk.disk with
      | .error e => (.error (.store e), s)
      | .ok drafts => (.ok (.identities (drafts.map fun b => (b.name, b.path))),
        if loads then
          { s with engine := { s.engine with model := s.engine.model.loadAll drafts } }
        else s) := by
  have hopen : openStore.run s = (.ok s.desk.disk, s) := by
    have hdesk : desk.run s = (.ok s.desk, s) := rfl
    rw [openStore, run_bind hdesk, if_pos h]
    rfl
  rw [listStore, run_bind hopen]
  cases hlist : Store.listAll storeBase s.desk.disk with
  | error e => exact run_bind_error rfl
  | ok drafts =>
    have hdrafts : (ofExcept .store (.ok drafts : Except StoreError _)).run s = (.ok drafts, s) :=
      rfl
    rw [run_bind hdrafts]
    cases loads <;> rfl

namespace Json

theorem skipBlank_brackets (n : Nat) :
    skipBlank (List.replicate n (.char '[')) = List.replicate n (.char '[') := by
  cases n <;> rfl

theorem value_brackets {depth n : Nat} (h : depth < n) :
    value depth (List.replicate n (.char '[')) = .error (.tooDeep .array) := by
  induction depth generalizing n with
  | zero =>
    obtain ⟨n, rfl⟩ := Nat.exists_eq_add_one.mpr h
    rfl
  | succ depth ih =>
    obtain ⟨n, rfl⟩ := Nat.exists_eq_add_one.mpr (Nat.zero_lt_of_lt h)
    have hinner := ih (Nat.lt_of_succ_lt_succ h)
    obtain ⟨n, rfl⟩ := Nat.exists_eq_add_one.mpr (Nat.zero_lt_of_lt (Nat.lt_of_succ_lt_succ h))
    rw [List.replicate_succ] at hinner
    have harray : value (depth + 1) (.char '[' :: .char '[' :: List.replicate n (.char '[')) =
        (items (value depth) ((List.replicate n (CodePoint.char '[')).length + 1)
          (.char '[' :: List.replicate n (.char '['))).map fun r => (.arr r.1, r.2) := rfl
    rw [List.replicate_succ, List.replicate_succ, harray, items, hinner]
    rfl

theorem read_brackets {n : Nat} (h : maxDepth < n) :
    read (String.ofList (List.replicate n '[')) = .error (.tooDeep .array) := by
  have hvalue := value_brackets h
  obtain ⟨n, rfl⟩ := Nat.exists_eq_add_one.mpr (Nat.zero_lt_of_lt h)
  rw [read, Points.ofString_ofList, List.map_replicate, readPoints]
  · rw [skipBlank_brackets, readFront, hvalue]
    rfl
  · simp [List.replicate_succ]

end Json

namespace Disk

variable {p : Path} {d : Disk}

/-- The path, or a name in it, is longer than the disk takes. -/
def TooLong (p : Path) (d : Disk) : Prop :=
  ∃ place, d.locate p = .error (.refused .nameTooLong place)

instance (p : Path) (d : Disk) : Decidable (TooLong p d) :=
  decidable_of_iff ((match d.locate p with
      | .error (.refused .nameTooLong _) => true
      | _ => false) = true) <| by
    unfold TooLong
    split
    · rename_i hlocate
      simp [hlocate]
    · rename_i hother
      simpa using hother

theorem tooLong_iff_lookup : TooLong p d ↔ ∃ e, d.lookup p = .error e := by
  unfold TooLong lookup
  split
  · rename_i hlocate
    simp [hlocate]
  · rename_i hlocate
    simp [hlocate]
  · rename_i hother hlocate
    simpa [hlocate] using hother

theorem tooLong_iff_has : TooLong p d ↔ ∃ e, d.has p = .error e := by
  rw [tooLong_iff_lookup, has]
  cases d.lookup p <;> simp [Except.map]

theorem tooLong_iff_hasDirectory : TooLong p d ↔ ∃ e, d.hasDirectory p = .error e := by
  rw [tooLong_iff_lookup, hasDirectory]
  cases d.lookup p <;> simp [Except.map]

theorem readJson_of_not_has (h : d.has p = .ok false) : ∃ e, d.readJson p = .error (.disk e) := by
  have hcontent : ∃ e, d.readContent p = .error e := by
    cases hlocate : d.locate p with
    | error e => exact ⟨e, by simp [readContent, hlocate, bind, Except.bind]⟩
    | ok place =>
      have hnone : d.item? place = none := by
        simpa [has, lookup, hlocate, Except.map] using h
      exact ⟨_, by simp only [readContent, hlocate, bind, Except.bind, hnone]; rfl⟩
  obtain ⟨e, hcontent⟩ := hcontent
  exact ⟨e, by simp only [readJson, Disk.read, hcontent]⟩

theorem nestsTooDeep_of_brackets {n : Nat} (hn : Json.maxDepth < n)
    (h : d.readContent p = .ok (.text (String.ofList (List.replicate n '[')))) :
    NestsTooDeep p d := by
  have hplain := Json.unifyLineEnds_of_isPlain (Json.isPlain_replicate (c := '[') rfl n)
  have htext : d.read p = .ok (String.ofList (List.replicate n '[')) := by
    rw [Disk.read, h]
    simp only [textOf, String.toList_ofList, hplain]
  refine ⟨String.ofList (List.replicate n '['), .array, ?_⟩
  simp only [readJson, htext, Json.read_brackets hn]

end Disk

namespace Store

open Disk

variable {base : Path} {d : Disk} {name : String} {names : List String} {bs : List BlueprintDraft}

/-- The blueprint in the current state of the directory called `name`, if there is such a directory
and the document there can be decoded and is one of a blueprint. -/
def current? (base : Path) (d : Disk) (name : String) : Option BlueprintDraft :=
  if d.hasDirectory (directory base name) = .ok true then
    match d.readJson (currentFile base name) with
    | .ok v => (BlueprintDraft.ofValue v).toOption
    | .error _ => none
  else none

/-- Nothing about the entry called `name` escapes from listing the store: no path is too long, and
no current state nests too deep. -/
structure Listable (base : Path) (d : Disk) (name : String) : Prop where
  entry : ¬ TooLong (directory base name) d
  current : d.hasDirectory (directory base name) = .ok true →
    ¬ TooLong (currentFile base name) d ∧ ¬ NestsTooDeep (currentFile base name) d

instance (base : Path) (d : Disk) (name : String) : Decidable (Listable base d name) :=
  decidable_of_iff (¬ TooLong (directory base name) d ∧
      (d.hasDirectory (directory base name) = .ok true →
        ¬ TooLong (currentFile base name) d ∧ ¬ NestsTooDeep (currentFile base name) d))
    ⟨fun h => ⟨h.1, h.2⟩, fun h => ⟨h.entry, h.current⟩⟩

theorem currentIn_of_has (hkey : key name = name)
    (hdirectory : d.hasDirectory (directory base name) = .ok true)
    (hhas : d.has (currentFile base name) = .ok true) :
    currentIn base name d = .ok bs ↔
      ¬ NestsTooDeep (currentFile base name) d ∧ bs = (current? base d name).toList := by
  have hload : load base name none d = (readDraft (currentFile base name) d).map some := by
    simp only [load, hkey, loadFile, hhas]
  simp only [currentIn, current?, hdirectory, hhas, hload, readDraft, NestsTooDeep, if_true]
  cases hread : d.readJson (currentFile base name) with
  | ok v =>
    cases hdraft : BlueprintDraft.ofValue v <;>
      simp [hdraft, Except.map, Except.toOption, eq_comm]
  | error e =>
    rcases e with e | fault | ⟨text, fault | digits | container⟩ <;> simp [Except.map, eq_comm]

theorem currentIn_eq_ok_iff
    (hkey : d.hasDirectory (directory base name) = .ok true → key name = name) :
    currentIn base name d = .ok bs ↔
      Listable base d name ∧ bs = (current? base d name).toList := by
  cases hdirectory : d.hasDirectory (directory base name) with
  | error e =>
    have hlong : TooLong (directory base name) d := tooLong_iff_hasDirectory.mpr ⟨e, hdirectory⟩
    simp only [currentIn, hdirectory, reduceCtorEq, false_iff]
    exact fun h => h.1.entry hlong
  | ok there =>
    have hentry : ¬ TooLong (directory base name) d := by
      simp [tooLong_iff_hasDirectory, hdirectory]
    cases there with
    | false =>
      have hlistable : Listable base d name := ⟨hentry, by simp [hdirectory]⟩
      simp [currentIn, current?, hdirectory, hlistable, eq_comm]
    | true =>
      have hlistable : Listable base d name ↔
          ¬ TooLong (currentFile base name) d ∧ ¬ NestsTooDeep (currentFile base name) d :=
        ⟨fun h => h.current hdirectory, fun h => ⟨hentry, fun _ => h⟩⟩
      rw [hlistable]
      cases hhas : d.has (currentFile base name) with
      | error e => simp [currentIn, hdirectory, hhas, tooLong_iff_has]
      | ok there =>
        cases there with
        | false =>
          obtain ⟨e, hread⟩ := readJson_of_not_has hhas
          simp [currentIn, current?, hdirectory, hhas, hread, tooLong_iff_has, NestsTooDeep,
            eq_comm]
        | true =>
          rw [currentIn_of_has (hkey hdirectory) hdirectory hhas]
          simp [tooLong_iff_has, hhas]

theorem mapM_eq_ok_iff {α β ε : Type} {f : α → Except ε β} {g : α → β} {Good : α → Prop}
    {as : List α} {ys : List β} (h : ∀ a ∈ as, ∀ y, f a = .ok y ↔ Good a ∧ y = g a) :
    as.mapM f = .ok ys ↔ (∀ a ∈ as, Good a) ∧ ys = as.map g := by
  induction as generalizing ys with
  | nil => simp [pure, Except.pure, eq_comm]
  | cons a as ih =>
    obtain ⟨ha, hrest⟩ := List.forall_mem_cons.mp h
    rw [List.mapM_cons, List.forall_mem_cons, List.map_cons]
    cases hfirst : f a with
    | error e =>
      have hbad : ¬ Good a := fun hgood => by simpa [hfirst] using (ha (g a)).mpr ⟨hgood, rfl⟩
      simp [bind, Except.bind, hbad]
    | ok y =>
      obtain ⟨hgood, rfl⟩ := (ha y).mp hfirst
      cases hmore : as.mapM f with
      | error e =>
        have hbad : ¬ ∀ a ∈ as, Good a := fun hall => by
          simpa [hmore] using (ih hrest).mpr ⟨hall, rfl⟩
        simp [bind, Except.bind, hbad]
      | ok zs =>
        obtain ⟨hall, rfl⟩ := (ih hrest).mp hmore
        simpa [bind, Except.bind, pure, Except.pure, hgood, eq_comm] using fun _ => hall

theorem not_lt_eq_true_iff {a b : String} : (!decide (b < a)) = true ↔ a ≤ b := by
  rw [Bool.not_eq_true', decide_eq_false_iff_not, String.not_lt]

theorem pairwise_sorted (hnodup : names.Nodup) :
    (names.mergeSort fun a b => !decide (b < a)).Pairwise (· < ·) := by
  have htrans : ∀ a b c : String, (!decide (b < a)) = true → (!decide (c < b)) = true →
      (!decide (c < a)) = true := by
    intro a b c hab hbc
    rw [not_lt_eq_true_iff] at hab hbc ⊢
    exact String.le_trans hab hbc
  have htotal : ∀ a b : String, ((!decide (b < a)) || (!decide (a < b))) = true := by
    intro a b
    rw [Bool.or_eq_true, not_lt_eq_true_iff, not_lt_eq_true_iff]
    exact String.le_total a b
  have hsorted := List.pairwise_mergeSort htrans htotal names
  have hdistinct := (List.mergeSort_perm names fun a b => !decide (b < a)).nodup_iff.mpr hnodup
  refine (hsorted.and hdistinct).imp fun {a b} h => ?_
  have hle : a ≤ b := not_lt_eq_true_iff.mp h.1
  exact String.not_le.mp fun hge => h.2 (String.le_antisymm hle hge)

theorem listAll_eq_ok_iff (hnames : d.list base = .ok names)
    (hkeys : ∀ name ∈ names, d.hasDirectory (directory base name) = .ok true → key name = name) :
    listAll base d = .ok bs ↔ (∀ name ∈ names, Listable base d name) ∧
      bs = (names.mergeSort fun a b => !decide (b < a)).filterMap (current? base d) := by
  have hmem : ∀ name, name ∈ (names.mergeSort fun a b => !decide (b < a)) ↔ name ∈ names :=
    fun _ => List.mem_mergeSort
  rw [listAll, hnames]
  simp only
  -- What follows holds of the names in any order.
  generalize (names.mergeSort fun a b => !decide (b < a)) = order at hmem ⊢
  have hmapM : ∀ found, order.mapM (currentIn base · d) = .ok found ↔
      (∀ name ∈ names, Listable base d name) ∧
        found = order.map fun name => (current? base d name).toList := by
    intro found
    rw [mapM_eq_ok_iff fun name hname _ =>
      currentIn_eq_ok_iff (hkeys name ((hmem name).mp hname))]
    simp only [hmem]
  rw [List.filterMap_eq_flatMap_toList, List.flatMap_def]
  cases hmap : order.mapM (currentIn base · d) with
  | error e =>
    have hbad : ¬ ∀ name ∈ names, Listable base d name := fun hall => by
      simpa [hmap] using (hmapM _).mpr ⟨hall, rfl⟩
    simp [bind, Except.bind, hbad]
  | ok found =>
    obtain ⟨hall, rfl⟩ := (hmapM found).mp hmap
    simpa [bind, Except.bind, eq_comm] using fun _ => hall

/-- The session works on the store at the path. -/
structure Serves (base : Path) (d : Disk) (s : Session) : Prop where
  base : base = Session.Action.storeBase
  disk : s.desk.disk = d
  opened : s.desk.opened = true

/-- Listing a store gives, in the order of their names, the current states of the directories in it,
those that are none of a blueprint left out, and loading appends them. It fails only if a path is
too long or a current state nests too deep. -/
theorem listAll_skips_corrupted (hd : IsTree d) (hnames : d.list base = .ok names)
    (hkeys : ∀ name ∈ names, d.hasDirectory (directory base name) = .ok true → key name = name) :
    ∃ order : List String, order.Perm names ∧ order.Pairwise (· < ·) ∧
      (∀ bs, listAll base d = .ok bs ↔
        (∀ name ∈ names, Listable base d name) ∧ bs = order.filterMap (current? base d)) ∧
      ∀ s bs, Serves base d s → listAll base d = .ok bs → ∃ made s',
        (Session.Action.listStore true).run s =
          (.ok (.identities (bs.map fun b => (b.name, b.path))), s') ∧
        s'.engine.model.loaded = s.engine.model.loaded ++ made ∧
        List.Forall₂ (fun draft b => ∃ n, b = (draft.make n).1) bs made := by
  have hnodup : names.Nodup := (list_eq_ok_iff.mp hnames).2 ▸ hd.nodup_namesIn (home base)
  refine ⟨_, List.mergeSort_perm names _, pairwise_sorted hnodup,
    fun bs => listAll_eq_ok_iff hnames hkeys, ?_⟩
  rintro s bs ⟨rfl, rfl, hopened⟩ hlist
  obtain ⟨made, hloaded, hmade⟩ := s.engine.model.loaded_loadAll bs
  refine ⟨made, { s with engine := { s.engine with model := s.engine.model.loadAll bs } }, ?_,
    hloaded, hmade⟩
  rw [Session.Action.run_listStore hopened, hlist]
  rfl

/-- A store with two blueprints, not in order, a current state that is cut short, a directory in the
place of another one, and a file beside them. -/
def mixedStore : Disk :=
  ⟨[(["store"], .directory), (["store", "Lamp"], .directory),
    (["store", "Lamp", "current.json"], .file (.text "\x7b\"name\": \"Lamp\"\x7d")),
    (["store", "Gate"], .directory), (["store", "Gate", "current.json"], .file (.text "\x7b")),
    (["store", "Wall"], .directory), (["store", "Wall", "current.json"], .directory),
    (["store", "Door"], .directory),
    (["store", "Door", "current.json"], .file (.text "\x7b\"name\": \"Door\"\x7d")),
    (["store", "notes.txt"], .file (.text ""))]⟩

def namedDraft (name : String) : BlueprintDraft := ⟨name, "", none, [], [], false, 0⟩

def mixedSession : Session :=
  ⟨Engine.new Model.empty 10 "", { Session.Desk.new false with disk := mixedStore, opened := true }⟩

theorem listAll_skips_corrupted_mixedStore :
    IsTree mixedStore ∧ listAll Session.Action.storeBase mixedStore =
        .ok [namedDraft "Door", namedDraft "Lamp"] ∧
      ∃ s, (Session.Action.listStore true).run mixedSession =
          (.ok (.identities [("Door", ""), ("Lamp", "")]), s) ∧
        s.engine.model.loaded.length = 2 := by
  have htree : IsTree mixedStore := by decide +kernel
  have hnames : mixedStore.list Session.Action.storeBase =
      .ok ["Lamp", "Gate", "Wall", "Door", "notes.txt"] := by decide +kernel
  obtain ⟨order, hperm, hsorted, hlist, hload⟩ :=
    listAll_skips_corrupted htree hnames (by decide +kernel)
  have horder : order = ["Door", "Gate", "Lamp", "Wall", "notes.txt"] := by
    refine List.Perm.eq_of_pairwise ?_ hsorted (by decide) (hperm.trans (by decide))
    exact fun a b _ _ hab hba => absurd hba (String.lt_asymm hab)
  have hfound : listAll Session.Action.storeBase mixedStore =
      .ok [namedDraft "Door", namedDraft "Lamp"] := by
    refine (hlist _).mpr ⟨by decide +kernel, ?_⟩
    rw [horder]
    decide +kernel
  obtain ⟨made, s, hrun, hloaded, hmade⟩ := hload mixedSession _ ⟨rfl, rfl, rfl⟩ hfound
  refine ⟨htree, hfound, s, hrun, ?_⟩
  rw [hloaded, List.length_append, ← hmade.length_eq]
  rfl

/-- A store where one current state nests too deep. -/
def deepStore : Disk :=
  (⟨[(["store"], .directory), (["store", "Lamp"], .directory),
    (["store", "Lamp", "current.json"], .file (.text "\x7b\"name\": \"Lamp\"\x7d")),
    (["store", "Deep"], .directory)]⟩ : Disk).put ["store", "Deep", "current.json"]
      (.file (.text (String.ofList (List.replicate 5000 '['))))

/-- It hides the other one. -/
theorem listAll_fails_deepStore :
    IsTree deepStore ∧ deepStore.list Session.Action.storeBase = .ok ["Lamp", "Deep"] ∧
      current? Session.Action.storeBase deepStore "Lamp" = some (namedDraft "Lamp") ∧
      ∀ bs, listAll Session.Action.storeBase deepStore ≠ .ok bs := by
  have hnames : deepStore.list Session.Action.storeBase = .ok ["Lamp", "Deep"] := by decide +kernel
  have hitem : deepStore.item? ["store", "Deep", "current.json"] =
      some (.file (.text (String.ofList (List.replicate 5000 '[')))) :=
    item?_put_self (by decide +kernel) _ _
  have hstands : Stands (directory Session.Action.storeBase "Deep") deepStore :=
    ⟨by decide +kernel, by decide +kernel⟩
  have hdeep : NestsTooDeep (currentFile Session.Action.storeBase "Deep") deepStore := by
    have hplace : ["store", "Deep", "current.json"] =
        home (directory Session.Action.storeBase "Deep") ++ ["current.json"] := by decide +kernel
    have hcontent := readContent_in hstands.open isName_current (by decide +kernel) (hplace ▸ hitem)
    exact nestsTooDeep_of_brackets (by decide) hcontent
  refine ⟨by decide +kernel, hnames, by decide +kernel, fun bs hlist => ?_⟩
  have hlistable := ((listAll_eq_ok_iff hnames (by decide +kernel)).mp hlist).1 "Deep" (by simp)
  exact (hlistable.current (hasDirectory_eq_true_iff.mpr hstands)).2 hdeep

end Store

end BlueprintPatch

import BlueprintPatch.Proofs.Stages

/-! The delivery of what a patch has modified, blueprint by blueprint. A run that does not succeed
has written files only if it was aborted in there: those of the blueprints that it had delivered,
and those of the one at which it was aborted. -/
namespace BlueprintPatch.CommandLine

open Disk

variable {s : Surroundings} {i : Invocation} {m m' : Model} {p q : Progress} {b : Blueprint}
  {store exportDir : Option String} {time : String} {d d₁ d' : Disk}

/-- The blueprint has been saved in the store, if there is one. -/
def Saved (store : Option String) (time : String) (b : Blueprint) (d d' : Disk) : Prop :=
  match store with
  | none => d' = d
  | some directory => ∃ n, Store.save (Path.ofText directory) time b d = (d', .ok n)

/-- The blueprint has been exported, if there is a directory for it, or the disk has refused to take
the export. -/
def Exported (exportDir : Option String) (time : String) (b : Blueprint) (d d' : Disk) : Prop :=
  match exportDir with
  | none => d' = d
  | some directory => ∃ r, Context.exportFile time b (exportTarget directory b) d = (d', r) ∧
      ∀ e, r = .error e → e.isRefusal = true

/-- The delivery of the blueprint has been aborted. -/
inductive Undelivered (store exportDir : Option String) (time : String) (b : Blueprint) :
    Disk → Disk → Abort → Prop
  | unsaved {directory : String} {d d' : Disk} {e : StoreError} (hstore : store = some directory)
      (hsave : Store.save (Path.ofText directory) time b d = (d', .error e)) :
      Undelivered store exportDir time b d d' (.store e)
  | unexported {directory : String} {d d₁ d' : Disk} {e : DiskError}
      (hsaved : Saved store time b d d₁) (hdirectory : exportDir = some directory)
      (hexport : Context.exportFile time b (exportTarget directory b) d₁ = (d', .error e))
      (he : e.isRefusal = false) : Undelivered store exportDir time b d d' (.disk e)

theorem exec_saveTo {r : Except Ending Unit}
    (h : exec (saveTo (store.map Path.ofText) time b) p = (r, q)) :
    (Saved store time b p.disk q.disk ∧ r = .ok ()) ∨ ∃ directory e, store = some directory ∧
      Store.save (Path.ofText directory) time b p.disk = (q.disk, .error e) ∧
      r = .error (.abort (.store e)) := by
  cases store with
  | none =>
    have hpure : (.ok (), p) = (r, q) := h
    obtain ⟨rfl, rfl⟩ := Prod.mk.inj hpure
    exact .inl ⟨rfl, rfl⟩
  | some directory =>
    simp only [Option.map_some, saveTo, saveBlueprint, exec_bind, exec_currentDisk,
      exec_setDisk] at h
    generalize hsave : Store.save (Path.ofText directory) time b p.disk = saved at h
    obtain ⟨d, e | n⟩ := saved
    · obtain ⟨rfl, rfl⟩ := Prod.mk.inj h
      exact .inr ⟨directory, e, rfl, hsave, rfl⟩
    · obtain ⟨rfl, rfl⟩ := Prod.mk.inj h
      exact .inl ⟨⟨n, hsave⟩, rfl⟩

theorem exec_exportTo {r : Except Ending Unit}
    (h : exec (exportTo exportDir time b) p = (r, q)) :
    (Exported exportDir time b p.disk q.disk ∧ r = .ok ()) ∨ ∃ directory e,
      exportDir = some directory ∧
      Context.exportFile time b (exportTarget directory b) p.disk = (q.disk, .error e) ∧
      e.isRefusal = false ∧ r = .error (.abort (.disk e)) := by
  cases exportDir with
  | none =>
    have hpure : (.ok (), p) = (r, q) := h
    obtain ⟨rfl, rfl⟩ := Prod.mk.inj hpure
    exact .inl ⟨rfl, rfl⟩
  | some directory =>
    simp only [exportTo, exportBlueprint, exec_bind, exec_currentDisk, exec_setDisk] at h
    generalize hexport : Context.exportFile time b _ p.disk = exported at h
    obtain ⟨d, e | u⟩ := exported
    · cases he : e.isRefusal with
      | true =>
        simp only [he, Bool.not_true, Bool.false_eq_true, if_false] at h
        obtain ⟨rfl, rfl⟩ := Prod.mk.inj h
        refine .inl ⟨⟨.error e, hexport, fun e' he' => ?_⟩, rfl⟩
        rwa [← Except.error.inj he']
      | false =>
        simp only [he, Bool.not_false, if_true] at h
        obtain ⟨rfl, rfl⟩ := Prod.mk.inj h
        exact .inr ⟨directory, e, rfl, hexport, he, rfl⟩
    · obtain ⟨rfl, rfl⟩ := Prod.mk.inj h
      exact .inl ⟨⟨.ok u, hexport, by simp⟩, rfl⟩

theorem exec_deliver {r : Except Ending Unit}
    (h : exec (deliver (store.map Path.ofText) exportDir time b) p = (r, q)) :
    (∃ d, Saved store time b p.disk d ∧ Exported exportDir time b d q.disk ∧ r = .ok ()) ∨
      ∃ a, Undelivered store exportDir time b p.disk q.disk a ∧ r = .error (.abort a) := by
  rw [deliver_eq] at h
  rcases exec_bind_cases h with ⟨e, hsave, rfl⟩ | ⟨_, p₁, hsave, hexport⟩
  · rcases exec_saveTo hsave with ⟨-, hok⟩ | ⟨directory, e', hstore, hfailed, herror⟩
    · cases hok
    · exact .inr ⟨_, .unsaved hstore hfailed, herror⟩
  · rcases exec_saveTo hsave with ⟨hsaved, -⟩ | ⟨directory, e', -, -, herror⟩
    · rcases exec_exportTo hexport with ⟨hdone, rfl⟩ | ⟨directory, e, hdirectory, hfailed, he, rfl⟩
      · exact .inl ⟨_, hsaved, hdone, rfl⟩
      · exact .inr ⟨_, .unexported hsaved hdirectory hfailed he, rfl⟩
    · cases herror

theorem deliverAll_append (s : Surroundings) (i : Invocation) (bs cs : List Blueprint) :
    deliverAll s i (bs ++ cs) = deliverAll s i bs >>= fun _ => deliverAll s i cs :=
  List.forM_append

theorem deliverAll_cons (s : Surroundings) (i : Invocation) (b : Blueprint) (bs : List Blueprint) :
    deliverAll s i (b :: bs) =
      deliver (i.store.map Path.ofText) i.exportDir s.time b >>= fun _ => deliverAll s i bs :=
  List.forM_cons ..

/-- A delivery that is aborted has delivered what stands before the blueprint where it is. -/
theorem exec_deliverAll_error {bs : List Blueprint} {e : Ending}
    (h : exec (deliverAll s i bs) p = (.error e, q)) :
    ∃ before b after p₁, bs = before ++ b :: after ∧
      exec (deliverAll s i before) p = (.ok (), p₁) ∧
      exec (deliver (i.store.map Path.ofText) i.exportDir s.time b) p₁ = (.error e, q) := by
  induction bs generalizing p with
  | nil => cases h
  | cons b bs ih =>
    rw [deliverAll_cons] at h
    rcases exec_bind_cases h with ⟨e', hfailed, he⟩ | ⟨_, p₁, hfirst, hrest⟩
    · obtain rfl := Except.error.inj he
      exact ⟨[], b, bs, p, rfl, rfl, hfailed⟩
    · obtain ⟨before, c, after, p₂, rfl, hbefore, hfailed⟩ := ih hrest
      refine ⟨b :: before, c, after, p₂, rfl, ?_, hfailed⟩
      rw [deliverAll_cons, exec_bind_of_ok hfirst, hbefore]

/-- A run that is dry or does not end with exit code zero leaves all files as they were, unless it
is aborted while it delivers what its patch has modified. It has then written files of the
blueprints that it had delivered and of the one that it was about to deliver, and no others. -/
theorem files_stay_unless_undelivered {arguments : List String} (h : interpret arguments = .ok i)
    (hend : i.dryRun = true ∨ (run s arguments).exit ≠ .ok 0) :
    SameFiles s.disk (run s arguments).disk ∨
    i.dryRun = false ∧ ∃ m m' before b after d a, Patched s i m m' ∧
      modified m m' = before ++ b :: after ∧
      Wrote (fun q t => ∃ x ∈ before, Delivers i.store i.exportDir s.time x q t) s.disk d ∧
      Undelivered i.store i.exportDir s.time b d (run s arguments).disk a ∧
      Wrote (Delivers i.store i.exportDir s.time b) d (run s arguments).disk ∧
      (run s arguments).exit = .error a := by
  rcases run_cases (s := s) h with ⟨hwrote, -⟩ |
    ⟨hdry, m, m', p, q, hpatched, hbegun, hdisk, ⟨-, hexit⟩ | ⟨a, haborted, hexit⟩⟩
  · exact .inl (hwrote.sameFiles (by simp))
  · rcases hend with hdry' | hne
    · rw [hdry] at hdry'
      cases hdry'
    · exact absurd hexit hne
  · obtain ⟨before, b, after, p₁, hbs, hbefore, hfailed⟩ := exec_deliverAll_error haborted
    have hdelivered := (ends_deliverAll s i before).wrote hbefore
    have hlast := (ends_deliver i.store i.exportDir s.time b).wrote hfailed
    refine .inr ⟨hdry, m, m', before, b, after, p₁.disk, a, hpatched, hbs, ?_, ?_, ?_, hexit⟩
    · exact (hbegun.mono (by simp)).trans hdelivered
    · rw [hdisk]
      rcases exec_deliver hfailed with ⟨_, -, -, hok⟩ | ⟨a', hundelivered, ha⟩
      · cases hok
      · cases ha
        exact hundelivered
    · rw [hdisk]
      exact hlast

def lampContext : String :=
  braced ("\"name\":\"Lamp\",\"path\":\"/Game/Lamp\",\"variables\":[" ++
    braced "\"name\":\"Lit\"" ++ "]")

/-- The patch that renames a variable of the lamp. -/
def renameOf (old : String) : String :=
  braced ("\"type\":\"variable_rename\",\"blueprint\":\"Lamp\",\"old_name\":\"" ++ old ++
    "\",\"new_name\":\"On\"")

/-- A lamp, a patch for it and one that names a variable that it does not have; directories stand
in the way of its current state in the store, and of its export. -/
def workshop : Surroundings where
  environment := [("HOME", "home")]
  input := .text ""
  disk := ⟨[(["lamp.json"], .file (.text lampContext)),
    (["rename.json"], .file (.text (renameOf "Lit"))),
    (["dim.json"], .file (.text (renameOf "Dim"))),
    (["store"], .directory), (["store", "Game_Lamp"], .directory),
    (["store", "Game_Lamp", "current.json"], .directory),
    (["out"], .directory), (["out", "Lamp.json"], .directory)]⟩
  time := ""
  seed := 0

def litLamp : BlueprintDraft :=
  ⟨"Lamp", "/Game/Lamp", none, [⟨"Lit", "bool", "", false⟩], [], false, 0⟩

def lampModel : Model := Model.empty.loadAll [litLamp]

def defaultSettings : Settings :=
  ⟨8000, none, none, .ofDecimal false 30 0, "Apply AI Patch", 50, "INFO"⟩

theorem ok_of_toOption {ε α : Type} {x : Except ε α} {a : α} (h : x.toOption = some a) :
    x = .ok a := by
  cases x with
  | error e => cases h
  | ok b => rw [Option.some.inj h]

theorem loaded_workshop (hblueprints : i.blueprints = [some "lamp.json"])
    (hopens : Opens i.store workshop.disk)
    (hstored : storedIn (i.store.map Path.ofText) (opened i.store workshop.disk) = .ok [])
    (hread : (opened i.store workshop.disk).readContent (.verbatim "lamp.json") =
      .ok (.text lampContext)) :
    Loaded workshop i lampModel := by
  have himport : (opened i.store workshop.disk).importFile (.verbatim "lamp.json") =
      .ok [litLamp] := by
    simp only [importFile, readJson, Disk.read, hread]
    rfl
  refine ⟨hopens, [], [[litLamp]], hstored, ?_, rfl⟩
  rw [hblueprints]
  exact .cons ⟨_, rfl, himport⟩ .nil

theorem run_workshop {arguments : List String} {text : String} (h : interpret arguments = .ok i)
    (hconfig : i.config = none) (htext : givenPatch workshop i.patch = .ok text)
    (hloaded : Loaded workshop i lampModel) :
    run workshop arguments =
      Result.of (exec (work workshop i defaultSettings text (i.store.map Path.ofText) lampModel)
        ⟨opened i.store workshop.disk, ""⟩) := by
  have hsettings : Settings.load i.config workshop.environment workshop.disk =
      .ok defaultSettings := by
    rw [hconfig]
    rfl
  have hlevel : checkLevel defaultSettings = .ok () := rfl
  exact run_of_loaded h hsettings hlevel htext hloaded

def savingArguments (patch : String) : List String :=
  [patch, "--blueprint", "lamp.json", "--store", "store"]

def saving (patch : String) : Invocation :=
  ⟨patch, [some "lamp.json"], some "store", none, false, none⟩

theorem loaded_saving (patch : String) : Loaded workshop (saving patch) lampModel := by
  have hlist : (opened (some "store") workshop.disk).list (Path.ofText "store") =
      .ok ["Game_Lamp"] := rfl
  have hcurrent : Store.currentIn (Path.ofText "store") "Game_Lamp"
      (opened (some "store") workshop.disk) = .ok [] := rfl
  refine loaded_workshop rfl (fun directory h => ?_) ?_ rfl
  · obtain rfl : "store" = directory := Option.some.inj h
    rfl
  · show Store.listAll (Path.ofText "store") (opened (some "store") workshop.disk) = .ok []
    simp only [Store.listAll, hlist, List.mergeSort_singleton, List.mapM_cons, List.mapM_nil,
      hcurrent]
    rfl

/-- The run is aborted when it has written the first version of the lamp. -/
theorem unsaved_lamp_leaves_file :
    interpret (savingArguments "rename.json") = .ok (saving "rename.json") ∧
    (run workshop (savingArguments "rename.json")).exit ≠ .ok 0 ∧
    ¬ SameFiles workshop.disk (run workshop (savingArguments "rename.json")).disk := by
  have harguments : interpret (savingArguments "rename.json") = .ok (saving "rename.json") :=
    ok_of_toOption (by decide +kernel)
  have htext : givenPatch workshop "rename.json" = .ok (renameOf "Lit") :=
    ok_of_toOption (by decide +kernel)
  have hend : (run workshop (savingArguments "rename.json")).exit.toOption = none ∧
      ((run workshop (savingArguments "rename.json")).disk.file?
        ["store", "Game_Lamp", "v1.json"]).isSome = true := by
    rw [run_workshop harguments rfl htext (loaded_saving _)]
    decide +kernel
  refine ⟨harguments, fun hzero => ?_, fun hsame => ?_⟩
  · rw [hzero] at hend
    cases hend.1
  · rw [hsame] at hend
    exact absurd hend.2 (by decide +kernel)

theorem files_stay_unless_undelivered_dim :
    interpret (savingArguments "dim.json") = .ok (saving "dim.json") ∧
    (run workshop (savingArguments "dim.json")).exit = .ok 1 ∧
    SameFiles workshop.disk (run workshop (savingArguments "dim.json")).disk := by
  have harguments : interpret (savingArguments "dim.json") = .ok (saving "dim.json") :=
    ok_of_toOption (by decide +kernel)
  have htext : givenPatch workshop "dim.json" = .ok (renameOf "Dim") :=
    ok_of_toOption (by decide +kernel)
  have hexit : (run workshop (savingArguments "dim.json")).exit = .ok 1 := by
    rw [run_workshop harguments rfl htext (loaded_saving _)]
    exact ok_of_toOption (by decide +kernel)
  refine ⟨harguments, hexit, ?_⟩
  have hone : (run workshop (savingArguments "dim.json")).exit ≠ .ok 0 := by simp [hexit]
  rcases files_stay_unless_undelivered harguments (.inr hone) with
    hsame | ⟨-, _, _, _, _, _, _, a, -, -, -, -, -, haborted⟩
  · exact hsame
  · rw [hexit] at haborted
    cases haborted

end BlueprintPatch.CommandLine

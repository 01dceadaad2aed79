import BlueprintPatch.CommandLine.Run
import BlueprintPatch.Proofs.Counting
import BlueprintPatch.Proofs.Exporting

/-! The stages of a run: what each of them needs to go on to the next one, which files it may write
and with which codes it may end the run. Nothing is written before the patch has been applied in
full; only the delivery of what it has modified writes files. -/
namespace BlueprintPatch.CommandLine

open Disk

section
variable {α β : Type} {c : Step α} {f : α → Step β} {p q : Progress}

/-- How a step ends, and what has been done by then. -/
def exec (c : Step α) (p : Progress) : Except Ending α × Progress := StateT.run (ExceptT.run c) p

@[simp] theorem exec_pure (a : α) (p : Progress) : exec (pure a) p = (.ok a, p) := rfl

@[simp] theorem exec_throw (e : Ending) (p : Progress) :
    exec (throw e : Step α) p = (.error e, p) := rfl

@[simp] theorem exec_say (line : String) (p : Progress) :
    exec (say line) p = (.ok (), { p with output := p.output ++ line ++ "\n" }) := rfl

@[simp] theorem exec_currentDisk (p : Progress) : exec currentDisk p = (.ok p.disk, p) := rfl

@[simp] theorem exec_setDisk (d : Disk) (p : Progress) :
    exec (setDisk d) p = (.ok (), { p with disk := d }) := rfl

theorem exec_bind (c : Step α) (f : α → Step β) (p : Progress) :
    exec (c >>= f) p = match exec c p with
      | (.ok a, q) => exec (f a) q
      | (.error e, q) => (.error e, q) := by
  simp only [exec, ExceptT.run_bind, StateT.run_bind]
  generalize StateT.run (ExceptT.run c) p = first
  obtain ⟨_ | _, _⟩ := first <;> rfl

theorem exec_bind_of_ok {a : α} (h : exec c p = (.ok a, q)) : exec (c >>= f) p = exec (f a) q := by
  rw [exec_bind, h]

theorem exec_bind_cases {r : Except Ending β} (h : exec (c >>= f) p = (r, q)) :
    (∃ e, exec c p = (.error e, q) ∧ r = .error e) ∨
      ∃ a p', exec c p = (.ok a, p') ∧ exec (f a) p' = (r, q) := by
  rw [exec_bind] at h
  cases hc : exec c p with
  | mk first p' =>
    cases first with
    | error e =>
      rw [hc] at h
      obtain ⟨rfl, rfl⟩ := Prod.mk.inj h
      exact .inl ⟨e, rfl, rfl⟩
    | ok a =>
      rw [hc] at h
      exact .inr ⟨a, p', rfl, h⟩

theorem exec_bind_eq_ok_iff {b : β} :
    exec (c >>= f) p = (.ok b, q) ↔
      ∃ a p', exec c p = (.ok a, p') ∧ exec (f a) p' = (.ok b, q) := by
  constructor
  · intro h
    rcases exec_bind_cases h with ⟨e, -, he⟩ | hrest
    · cases he
    · exact hrest
  · rintro ⟨a, p', hc, hf⟩
    rw [exec_bind_of_ok hc, hf]

theorem exec_aborting_eq_ok_iff {ε : Type} {describe : ε → Abort} {x : Except ε α} {a : α} :
    exec (aborting describe x) p = (.ok a, q) ↔ x = .ok a ∧ q = p := by
  cases x with
  | ok b => simp [aborting, eq_comm]
  | error e => simp [aborting]

/-- The step writes no other files than those of `F`, and if it ends the run with an exit code
then with one of `Code`. -/
structure Ends (F : Path → String → Prop) (Code : Nat → Prop) (c : Step α) : Prop where
  files : ∀ p, Wrote F p.disk (exec c p).2.disk
  code : ∀ p n, (exec c p).1 = .error (.exit n) → Code n

namespace Ends

variable {F : Path → String → Prop} {Code : Nat → Prop}

theorem wrote (hc : Ends F Code c) {r : Except Ending α} (h : exec c p = (r, q)) :
    Wrote F p.disk q.disk := by
  have hfiles := hc.files p
  rwa [h] at hfiles

theorem pure (a : α) : Ends F Code (Pure.pure a : Step α) where
  files p := .refl F p.disk
  code p n h := by cases h

theorem abort (a : Abort) : Ends F Code (throw (.abort a) : Step α) where
  files p := .refl F p.disk
  code p n h := by cases h

theorem say (line : String) : Ends F Code (say line) where
  files p := .refl F p.disk
  code p n h := by cases h

theorem currentDisk : Ends F Code currentDisk where
  files p := .refl F p.disk
  code p n h := by cases h

theorem bind (hc : Ends F Code c) (hf : ∀ a, Ends F Code (f a)) : Ends F Code (c >>= f) := by
  refine ⟨fun p => ?_, fun p n h => ?_⟩
  · generalize hend : exec (c >>= f) p = ending
    obtain ⟨r, q⟩ := ending
    rcases exec_bind_cases hend with ⟨e, he, -⟩ | ⟨a, p', ha, hrest⟩
    · exact hc.wrote he
    · exact (hc.wrote ha).trans ((hf a).wrote hrest)
  · generalize hend : exec (c >>= f) p = ending at h
    obtain ⟨r, q⟩ := ending
    obtain rfl : r = .error (.exit n) := h
    rcases exec_bind_cases hend with ⟨e, he, hsame⟩ | ⟨a, p', ha, hrest⟩
    · obtain rfl := Except.error.inj hsame
      exact hc.code p n (by rw [he])
    · exact (hf a).code p' n (by rw [hrest])

theorem aborting {ε : Type} (describe : ε → Abort) (x : Except ε α) :
    Ends F Code (aborting describe x) := by
  cases x with
  | ok a => exact pure a
  | error e => exact abort _

theorem forM {as : List α} {f : α → Step PUnit} (h : ∀ a ∈ as, Ends F Code (f a)) :
    Ends F Code (as.forM f) := by
  induction as with
  | nil => exact pure _
  | cons a as ih =>
    exact bind (h a List.mem_cons_self) fun _ => ih fun b hb => h b (List.mem_cons_of_mem a hb)

theorem mapM {as : List α} (h : ∀ a, Ends F Code (f a)) : Ends F Code (as.mapM f) := by
  induction as with
  | nil => exact pure _
  | cons a as ih =>
    rw [List.mapM_cons]
    exact bind (h a) fun _ => bind ih fun _ => pure _

end Ends

/-- The step writes no files, and an exit code of its own is a failure. -/
def Prepares (c : Step α) : Prop := Ends (fun _ _ => False) (· = 1) c

theorem prepares_giveUp (line : String) : Prepares (giveUp line : Step α) where
  files p := .refl _ p.disk
  code p n h := by
    obtain rfl : 1 = n := by simpa [giveUp, exec_bind] using h
    rfl

end

variable {s : Surroundings} {i : Invocation} {m m' : Model} {p q : Progress} {text : String}

/-- The text of the patch; a dash stands for the input. -/
def givenPatch (s : Surroundings) (name : String) : Except Disk.ReadError String :=
  if name = "-" then Disk.textOf s.input else s.disk.read (Path.ofText name)

theorem prepares_readPatch (s : Surroundings) (name : String) : Prepares (readPatch s name) := by
  unfold readPatch
  split
  · exact .pure _
  · split
    · exact prepares_giveUp _
    · exact .abort _
  · exact .abort _

theorem exec_readPatch_eq_ok_iff {name : String} :
    exec (readPatch s name) p = (.ok text, q) ↔ givenPatch s name = .ok text ∧ q = p := by
  unfold readPatch givenPatch
  split
  · rename_i hgiven
    simp [hgiven, eq_comm]
  · rename_i hgiven
    split <;> simp [hgiven, giveUp, exec_bind]
  · rename_i hgiven
    simp [hgiven]

/-- The disk once the store has been opened, if there is one. -/
def opened (store : Option String) (d : Disk) : Disk :=
  match store with
  | some directory => (Store.create (Path.ofText directory) d).1
  | none => d

theorem prepares_openStore (directory : String) : Prepares (openStore directory) := by
  refine ⟨fun p => ?_, fun p n h => ?_⟩
  · have hmade := wrote_makeAll (fun _ _ => False) (Path.ofText directory) p.disk
    simp only [openStore, exec_bind, exec_currentDisk, exec_setDisk, Store.create]
    cases (p.disk.makeAll (Path.ofText directory)).2 <;> exact hmade
  · simp only [openStore, exec_bind, exec_currentDisk, exec_setDisk] at h
    cases hcreate : (Store.create (Path.ofText directory) p.disk).2 <;>
      simp [hcreate, aborting] at h

/-- The store, if one is asked for, could be made. -/
def Opens (store : Option String) (d : Disk) : Prop :=
  ∀ directory, store = some directory → (Store.create (Path.ofText directory) d).2 = .ok ()

theorem exec_openStore_eq_ok_iff {directory : String} {base : Path} :
    exec (openStore directory) p = (.ok base, q) ↔
      (Store.create (Path.ofText directory) p.disk).2 = .ok () ∧ base = Path.ofText directory ∧
        q = { p with disk := (Store.create (Path.ofText directory) p.disk).1 } := by
  simp only [openStore, exec_bind, exec_currentDisk, exec_setDisk]
  cases hcreate : (Store.create (Path.ofText directory) p.disk).2 with
  | error e => simp [aborting]
  | ok u =>
    simp only [aborting, exec_pure, Prod.mk.injEq, Except.ok.injEq, true_and]
    exact and_congr eq_comm eq_comm

theorem exec_openStores_eq_ok_iff {store : Option String} {base : Option Path} :
    exec (store.mapM openStore) p = (.ok base, q) ↔ Opens store p.disk ∧
      base = store.map Path.ofText ∧ q = { p with disk := opened store p.disk } := by
  cases store with
  | none =>
    simp only [Option.mapM_none, exec_pure, Prod.mk.injEq, Except.ok.injEq, Opens, opened,
      reduceCtorEq, false_implies, implies_true, true_and, Option.map_none]
    exact and_congr eq_comm eq_comm
  | some directory =>
    simp only [Option.mapM_some, map_eq_pure_bind, exec_bind_eq_ok_iff, exec_openStore_eq_ok_iff,
      exec_pure, Prod.mk.injEq, Except.ok.injEq, Opens, opened, Option.map_some]
    constructor
    · rintro ⟨_, _, ⟨hcreate, rfl, rfl⟩, rfl, rfl⟩
      refine ⟨fun directory hdirectory => ?_, rfl, rfl⟩
      obtain rfl := Option.some.inj hdirectory
      exact hcreate
    · rintro ⟨hopens, rfl, rfl⟩
      exact ⟨_, _, ⟨hopens directory rfl, rfl, rfl⟩, rfl, rfl⟩

theorem prepares_loadStore (base : Path) : Prepares (loadStore base) := by
  refine .bind .currentDisk fun d => ?_
  split
  · exact .pure _
  · exact .abort _
  · exact prepares_giveUp _

theorem prepares_loadExport (name : Option String) : Prepares (loadExport name) := by
  cases name with
  | none => exact .abort _
  | some name =>
    refine .bind .currentDisk fun d => ?_
    split
    · exact .pure _
    · split
      · exact prepares_giveUp _
      · exact .abort _

theorem exec_loadStore_eq_ok_iff {base : Path} {drafts : List BlueprintDraft} :
    exec (loadStore base) p = (.ok drafts, q) ↔ Store.listAll base p.disk = .ok drafts ∧ q = p := by
  simp only [loadStore, exec_bind, exec_currentDisk]
  split
  · rename_i hlist
    simp only [hlist, exec_pure, Prod.mk.injEq, Except.ok.injEq, eq_comm (a := p)]
  · rename_i hlist
    simp [hlist]
  · rename_i hlist
    simp [hlist, cannotLoad, giveUp, exec_bind]

/-- The text names an export with those blueprints. -/
def Imports (d : Disk) (name : Option String) (drafts : List BlueprintDraft) : Prop :=
  ∃ text, name = some text ∧ d.importFile (Path.verbatim text) = .ok drafts

theorem exec_loadExport_eq_ok_iff {name : Option String} {drafts : List BlueprintDraft} :
    exec (loadExport name) p = (.ok drafts, q) ↔ Imports p.disk name drafts ∧ q = p := by
  cases name with
  | none => simp [loadExport, Imports]
  | some text =>
    simp only [loadExport, exec_bind, exec_currentDisk, Imports, Option.some.injEq,
      exists_eq_left']
    split
    · rename_i himport
      simp only [himport, exec_pure, Prod.mk.injEq, Except.ok.injEq, eq_comm (a := p)]
    · rename_i himport
      split <;> simp [himport, cannotLoad, giveUp, exec_bind]

theorem exec_mapM_loadExport_eq_ok_iff {names : List (Option String)}
    {exported : List (List BlueprintDraft)} :
    exec (names.mapM loadExport) p = (.ok exported, q) ↔
      List.Forall₂ (Imports p.disk) names exported ∧ q = p := by
  induction names generalizing exported with
  | nil => simp [eq_comm]
  | cons name names ih =>
    rw [List.mapM_cons]
    simp only [exec_bind_eq_ok_iff, exec_loadExport_eq_ok_iff, exec_pure, Prod.mk.injEq,
      Except.ok.injEq, List.forall₂_cons_left_iff]
    constructor
    · rintro ⟨drafts, p', ⟨hname, rfl⟩, rest, q', hrest, rfl, rfl⟩
      obtain ⟨hnames, rfl⟩ := ih.mp hrest
      exact ⟨⟨drafts, rest, hname, hnames, rfl⟩, rfl⟩
    · rintro ⟨⟨drafts, rest, hname, hnames, rfl⟩, rfl⟩
      exact ⟨drafts, q, ⟨hname, rfl⟩, rest, q, ih.mpr ⟨hnames, rfl⟩, rfl, rfl⟩

/-- The blueprints in the store, if there is one. -/
def storedIn (store : Option Path) (d : Disk) : Except StoreError (List BlueprintDraft) :=
  match store with
  | some base => Store.listAll base d
  | none => .ok []

def loadStores (store : Option Path) : Step (List BlueprintDraft) :=
  match store with
  | some base => loadStore base
  | none => pure []

theorem loadModel_eq (store : Option Path) (exports : List (Option String)) (seed : Nat) :
    loadModel store exports seed = do
      let stored ← loadStores store
      let exported ← exports.mapM loadExport
      return ({ Model.empty with next := seed } : Model).loadAll (stored ++ exported.flatten) := by
  cases store <;> rfl

theorem prepares_loadStores (store : Option Path) : Prepares (loadStores store) := by
  cases store with
  | none => exact .pure _
  | some base => exact prepares_loadStore base

theorem exec_loadStores_eq_ok_iff {store : Option Path} {drafts : List BlueprintDraft} :
    exec (loadStores store) p = (.ok drafts, q) ↔ storedIn store p.disk = .ok drafts ∧ q = p := by
  cases store with
  | none =>
    simp only [loadStores, storedIn, exec_pure, Prod.mk.injEq, Except.ok.injEq, eq_comm (a := p)]
  | some base => exact exec_loadStore_eq_ok_iff

theorem prepares_loadModel (store : Option Path) (exports : List (Option String)) (seed : Nat) :
    Prepares (loadModel store exports seed) := by
  rw [loadModel_eq]
  exact .bind (prepares_loadStores store) fun _ =>
    .bind (.mapM prepares_loadExport) fun _ => .pure _

theorem exec_loadModel_eq_ok_iff {store : Option Path} {exports : List (Option String)}
    {seed : Nat} :
    exec (loadModel store exports seed) p = (.ok m, q) ↔ q = p ∧
      ∃ stored exported, storedIn store p.disk = .ok stored ∧
        List.Forall₂ (Imports p.disk) exports exported ∧
        m = ({ Model.empty with next := seed } : Model).loadAll (stored ++ exported.flatten) := by
  rw [loadModel_eq]
  simp only [exec_bind_eq_ok_iff, exec_loadStores_eq_ok_iff, exec_mapM_loadExport_eq_ok_iff,
    exec_pure, Prod.mk.injEq, Except.ok.injEq]
  constructor
  · rintro ⟨stored, _, ⟨hstored, rfl⟩, exported, _, ⟨hexported, rfl⟩, rfl, rfl⟩
    exact ⟨rfl, stored, exported, hstored, hexported, rfl⟩
  · rintro ⟨rfl, stored, exported, hstored, hexported, rfl⟩
    exact ⟨stored, q, ⟨hstored, rfl⟩, exported, q, ⟨hexported, rfl⟩, rfl, rfl⟩

/-- The run has loaded the blueprints of the model: those in the store, and then those of the
exports. -/
structure Loaded (s : Surroundings) (i : Invocation) (m : Model) : Prop where
  opens : Opens i.store s.disk
  model : ∃ stored exported,
    storedIn (i.store.map Path.ofText) (opened i.store s.disk) = .ok stored ∧
    List.Forall₂ (Imports (opened i.store s.disk)) i.blueprints exported ∧
    m = ({ Model.empty with next := s.seed } : Model).loadAll (stored ++ exported.flatten)

/-- Everything that a run does before it works on the blueprints. -/
def prepare (s : Surroundings) (i : Invocation) :
    Step (Settings × String × Option Path × Model) := do
  let settings ← aborting .settings (Settings.load i.config s.environment s.disk)
  aborting id (checkLevel settings)
  let text ← readPatch s i.patch
  let store ← i.store.mapM openStore
  let model ← loadModel store i.blueprints s.seed
  return (settings, text, store, model)

theorem prepares_prepare (s : Surroundings) (i : Invocation) : Prepares (prepare s i) := by
  refine .bind (.aborting _ _) fun _ => .bind (.aborting _ _) fun _ =>
    .bind (prepares_readPatch s _) fun _ => .bind ?_ fun _ =>
    .bind (prepares_loadModel _ _ _) fun _ => .pure _
  cases i.store with
  | none => exact .pure _
  | some directory =>
    rw [Option.mapM_some, map_eq_pure_bind]
    exact .bind (prepares_openStore directory) fun _ => .pure _

theorem exec_prepare_eq_ok_iff {out : String} {settings : Settings} {store : Option Path} :
    exec (prepare s i) ⟨s.disk, out⟩ = (.ok (settings, text, store, m), q) ↔
      Settings.load i.config s.environment s.disk = .ok settings ∧
      checkLevel settings = .ok () ∧ givenPatch s i.patch = .ok text ∧ Loaded s i m ∧
      store = i.store.map Path.ofText ∧ q = ⟨opened i.store s.disk, out⟩ := by
  simp only [prepare, exec_bind_eq_ok_iff, exec_aborting_eq_ok_iff, exec_readPatch_eq_ok_iff,
    exec_openStores_eq_ok_iff, exec_loadModel_eq_ok_iff, exec_pure, Prod.mk.injEq, Except.ok.injEq]
  constructor
  · rintro ⟨_, _, ⟨hsettings, rfl⟩, _, _, ⟨hlevel, rfl⟩, _, _, ⟨htext, rfl⟩, _, _,
      ⟨hopens, rfl, rfl⟩, _, _, ⟨rfl, hmodel⟩, ⟨rfl, rfl, rfl, rfl⟩, rfl⟩
    exact ⟨hsettings, hlevel, htext, ⟨hopens, hmodel⟩, rfl, rfl⟩
  · rintro ⟨hsettings, hlevel, htext, ⟨hopens, hmodel⟩, rfl, rfl⟩
    exact ⟨_, _, ⟨hsettings, rfl⟩, _, _, ⟨hlevel, rfl⟩, _, _, ⟨htext, rfl⟩, _, _,
      ⟨hopens, rfl, rfl⟩, _, _, ⟨rfl, hmodel⟩, ⟨rfl, rfl, rfl, rfl⟩, rfl⟩

theorem prepares_dryRun (text : Json) (e : Engine) : Prepares (dryRun text e) := by
  unfold dryRun
  split
  · exact prepares_giveUp _
  · exact .bind (.say _) fun _ => .pure _

theorem prepares_applyPatch (text : Json) (e : Engine) : Prepares (applyPatch text e) := by
  refine .bind (.aborting _ _) fun outcome => .bind (.forM fun _ _ => .say _) fun _ => ?_
  split
  · exact prepares_giveUp _
  · exact .pure _

/-- The blueprints of the second model that have been modified since the first one. -/
def modified (m m' : Model) : List Blueprint := m'.loaded.filter (isModifiedSince m)

/-- The run has loaded the first model, and its patch makes the second one of it. -/
structure Patched (s : Surroundings) (i : Invocation) (m m' : Model) : Prop where
  loaded : Loaded s i m
  patched : ∃ text, givenPatch s i.patch = .ok text ∧
    runInTurn (Document.ofValue (.str text)).operations m = .ok m'

def exportTarget (directory : String) (b : Blueprint) : Path :=
  (Path.ofText directory).join (b.name ++ ".json")

/-- The files that the delivery of a blueprint writes. -/
inductive Delivers (store exportDir : Option String) (time : String) (b : Blueprint) :
    Path → String → Prop
  | saved {directory : String} {q : Path} {t : String} (hstore : store = some directory)
      (h : Store.SavedFile (Path.ofText directory) time b q t) : Delivers store exportDir time b q t
  | exported {directory : String} {q : Path} {t : String} (hdirectory : exportDir = some directory)
      (h : Context.Exports time b (exportTarget directory b) q t) :
      Delivers store exportDir time b q t

/-- What a run does with the blueprints that it has loaded. -/
def work (s : Surroundings) (i : Invocation) (settings : Settings) (text : String)
    (store : Option Path) (model : Model) : Step Nat := do
  say ("Loaded " ++ toString model.loaded.length ++ " blueprint(s)")
  let engine := Engine.new model settings.undoDepth settings.transactionLabel
  if i.dryRun then dryRun (.str text) engine
  else do
    let (engine, outcome) ← applyPatch (.str text) engine
    (modified model engine.model).forM (deliver store i.exportDir s.time)
    say ("[OK] Applied " ++ toString outcome.applied ++ " operation(s)")
    return 0

theorem carryOut_eq (s : Surroundings) (i : Invocation) :
    carryOut s i = prepare s i >>= fun (settings, text, store, model) =>
      work s i settings text store model := by
  simp only [carryOut, prepare, bind_assoc, pure_bind]
  rfl

theorem patched_of_exec_applyPatch {depth : Int} {label : String} {e : Engine} {o : Outcome}
    (h : exec (applyPatch (.str text) (Engine.new m depth label)) p = (.ok (e, o), q)) :
    runInTurn (Document.ofValue (.str text)).operations m = .ok e.model := by
  have hrun : ((Engine.new m depth label).apply notify (.str text) []).2.2 = .ok o →
      o.success = true → runInTurn (Document.ofValue (.str text)).operations m =
        .ok ((Engine.new m depth label).apply notify (.str text) []).1.model :=
    fun ho hsuccess => (Engine.run_of_success (fun _ _ _ => rfl) ho hsuccess).1
  simp only [applyPatch] at h
  generalize (Engine.new m depth label).apply notify (.str text) [] = applied at h hrun
  obtain ⟨e', notes, result⟩ := applied
  obtain ⟨o', p₁, haborting, hrest⟩ := exec_bind_eq_ok_iff.mp h
  obtain ⟨hresult, rfl⟩ := exec_aborting_eq_ok_iff.mp haborting
  obtain ⟨-, p₂, -, hend⟩ := exec_bind_eq_ok_iff.mp hrest
  split at hend
  · simp [giveUp, exec_bind] at hend
  · rename_i hsuccess
    obtain ⟨hpair, rfl⟩ := Prod.mk.inj hend
    obtain ⟨rfl, rfl⟩ := Prod.mk.inj (Except.ok.inj hpair)
    exact hrun hresult (by simp [Outcome.success, hsuccess])

theorem ends_saveBlueprint (directory : String) (exportDir : Option String) (time : String)
    (b : Blueprint) :
    Ends (Delivers (some directory) exportDir time b) (fun _ => False)
      (saveBlueprint (Path.ofText directory) time b) := by
  refine ⟨fun p => ?_, fun p n h => ?_⟩
  · simp only [saveBlueprint, exec_bind, exec_currentDisk, exec_setDisk]
    generalize hsave : Store.save (Path.ofText directory) time b p.disk = saved
    obtain ⟨d, r⟩ := saved
    have hfiles : Wrote (Delivers (some directory) exportDir time b) p.disk d :=
      (Store.wrote_save hsave).1.mono fun _ _ h => .saved rfl h
    cases r <;> exact hfiles
  · simp only [saveBlueprint, exec_bind, exec_currentDisk, exec_setDisk] at h
    generalize (Store.save (Path.ofText directory) time b p.disk).2 = r at h
    cases r <;> simp [aborting] at h

theorem ends_exportBlueprint (store : Option String) (directory time : String) (b : Blueprint) :
    Ends (Delivers store (some directory) time b) (fun _ => False)
      (exportBlueprint directory time b) := by
  refine ⟨fun p => ?_, fun p n h => ?_⟩
  · simp only [exportBlueprint, exec_bind, exec_currentDisk, exec_setDisk]
    generalize hexport : Context.exportFile time b _ p.disk = exported
    obtain ⟨d, r⟩ := exported
    have hfiles : Wrote (Delivers store (some directory) time b) p.disk d :=
      (wrote_exportFile hexport).1.mono fun _ _ h => .exported rfl h
    cases r with
    | ok u => exact hfiles
    | error e =>
      dsimp only
      split <;> exact hfiles
  · simp only [exportBlueprint, exec_bind, exec_currentDisk, exec_setDisk] at h
    split at h
    · simp at h
    · split at h <;> simp at h

def saveTo (store : Option Path) (time : String) (b : Blueprint) : Step Unit :=
  match store with
  | some base => saveBlueprint base time b
  | none => pure ()

def exportTo (exportDir : Option String) (time : String) (b : Blueprint) : Step Unit :=
  match exportDir with
  | some directory => exportBlueprint directory time b
  | none => pure ()

theorem deliver_eq (store : Option Path) (exportDir : Option String) (time : String)
    (b : Blueprint) :
    deliver store exportDir time b =
      saveTo store time b >>= fun _ => exportTo exportDir time b := by
  cases store <;> cases exportDir <;> rfl

theorem ends_deliver (store exportDir : Option String) (time : String) (b : Blueprint) :
    Ends (Delivers store exportDir time b) (fun _ => False)
      (deliver (store.map Path.ofText) exportDir time b) := by
  rw [deliver_eq]
  refine .bind ?_ fun _ => ?_
  · cases store with
    | none => exact .pure _
    | some directory => exact ends_saveBlueprint directory exportDir time b
  · cases exportDir with
    | none => exact .pure _
    | some directory => exact ends_exportBlueprint store directory time b

/-- The delivery of the blueprints in turn. -/
def deliverAll (s : Surroundings) (i : Invocation) (bs : List Blueprint) : Step PUnit :=
  bs.forM (deliver (i.store.map Path.ofText) i.exportDir s.time)

theorem ends_deliverAll (s : Surroundings) (i : Invocation) (bs : List Blueprint) :
    Ends (fun q t => ∃ b ∈ bs, Delivers i.store i.exportDir s.time b q t) (fun _ => False)
      (deliverAll s i bs) := by
  refine .forM fun b hb => ?_
  have hone := ends_deliver i.store i.exportDir s.time b
  exact ⟨fun p => (hone.files p).mono fun q t h => ⟨b, hb, h⟩, hone.code⟩

def Result.of : Except Ending Nat × Progress → Result
  | (.ok code, p) => ⟨p.disk, p.output, .ok code⟩
  | (.error (.exit code), p) => ⟨p.disk, p.output, .ok code⟩
  | (.error (.abort a), p) => ⟨p.disk, p.output, .error a⟩

theorem run_eq {arguments : List String} (h : interpret arguments = .ok i) :
    run s arguments = Result.of (exec (carryOut s i) ⟨s.disk, ""⟩) := by
  simp only [run, h, exec]
  generalize StateT.run (ExceptT.run (carryOut s i)) ⟨s.disk, ""⟩ = r
  obtain ⟨(_ | _) | _, _⟩ := r <;> rfl

/-- The run has come to an end before any delivery: it has written no file, and it has failed
unless it was to be dry. -/
structure Idle (s : Surroundings) (i : Invocation) (r : Except Ending Nat × Progress) : Prop where
  files : Wrote (fun _ _ => False) s.disk r.2.disk
  ended : i.dryRun = true ∨ ∃ e, r.1 = .error e ∧ e ≠ .exit 0

theorem idle_of_error {α : Type} {c : Step α} {e : Ending} (hc : Prepares c)
    (hp : Wrote (fun _ _ => False) s.disk p.disk) (h : exec c p = (.error e, q)) :
    Idle s i (.error e, q) := by
  refine ⟨hp.trans (hc.wrote h), .inr ⟨e, rfl, ?_⟩⟩
  rintro rfl
  have hcode := hc.code p 0 (by rw [h])
  cases hcode

theorem work_cases {settings : Settings} {r : Except Ending Nat}
    (hp : Wrote (fun _ _ => False) s.disk p.disk)
    (h : exec (work s i settings text (i.store.map Path.ofText) m) p = (r, q)) :
    Idle s i (r, q) ∨ i.dryRun = false ∧
      ∃ m' p' r' q', runInTurn (Document.ofValue (.str text)).operations m = .ok m' ∧
        Wrote (fun _ _ => False) s.disk p'.disk ∧
        exec (deliverAll s i (modified m m')) p' = (r', q') ∧ q.disk = q'.disk ∧
        r = r'.map fun _ => 0 := by
  rw [work, exec_bind_of_ok (exec_say _ _)] at h
  generalize hsaid : ({ p with output := _ } : Progress) = p₁ at h
  replace hp : Wrote (fun _ _ => False) s.disk p₁.disk := hsaid ▸ hp
  by_cases hdry : i.dryRun = true
  · rw [if_pos hdry] at h
    exact .inl ⟨hp.trans ((prepares_dryRun _ _).wrote h), .inl hdry⟩
  · rw [if_neg hdry] at h
    rcases exec_bind_cases h with ⟨e, he, rfl⟩ | ⟨⟨e, o⟩, p', happly, hrest⟩
    · exact .inl (idle_of_error (prepares_applyPatch _ _) hp he)
    · have hfiles := hp.trans ((prepares_applyPatch _ _).wrote happly)
      have hpatched := patched_of_exec_applyPatch happly
      refine .inr ⟨by simpa using hdry, e.model, p', ?_⟩
      rcases exec_bind_cases hrest with ⟨a, ha, rfl⟩ | ⟨_, q', ha, hlast⟩
      · exact ⟨_, _, hpatched, hfiles, ha, rfl, rfl⟩
      · rw [exec_bind_of_ok (exec_say _ _)] at hlast
        obtain ⟨rfl, rfl⟩ := Prod.mk.inj hlast
        exact ⟨_, _, hpatched, hfiles, ha, rfl, rfl⟩

/-- How a run goes: it ends early and has written nothing, or it delivers the blueprints that the
patch has modified, and ends as their delivery does. -/
theorem run_cases {arguments : List String} (h : interpret arguments = .ok i) :
    Wrote (fun _ _ => False) s.disk (run s arguments).disk ∧
      (i.dryRun = true ∨ (run s arguments).exit ≠ .ok 0) ∨
    i.dryRun = false ∧ ∃ m m' p q, Patched s i m m' ∧ Wrote (fun _ _ => False) s.disk p.disk ∧
      (run s arguments).disk = q.disk ∧
      (exec (deliverAll s i (modified m m')) p = (.ok (), q) ∧ (run s arguments).exit = .ok 0 ∨
        ∃ a, exec (deliverAll s i (modified m m')) p = (.error (.abort a), q) ∧
          (run s arguments).exit = .error a) := by
  rw [run_eq h]
  generalize hend : exec (carryOut s i) ⟨s.disk, ""⟩ = ending
  obtain ⟨r, q⟩ := ending
  have hidle : Idle s i (r, q) → Wrote (fun _ _ => False) s.disk (Result.of (r, q)).disk ∧
      (i.dryRun = true ∨ (Result.of (r, q)).exit ≠ .ok 0) := by
    rintro ⟨hfiles, hdry | ⟨e, he, hne⟩⟩
    · obtain (_ | _) | _ := r <;> exact ⟨hfiles, .inl hdry⟩
    · obtain rfl : r = .error e := he
      cases e with
      | exit n =>
        refine ⟨hfiles, .inr fun hexit => hne ?_⟩
        obtain rfl := Except.ok.inj hexit
        rfl
      | abort a => exact ⟨hfiles, .inr fun hexit => by cases hexit⟩
  rw [carryOut_eq] at hend
  rcases exec_bind_cases hend with ⟨e, he, rfl⟩ | ⟨⟨settings, text, store, m⟩, p, hprepare, hwork⟩
  · exact .inl (hidle (idle_of_error (prepares_prepare s i) (.refl _ _) he))
  · obtain ⟨-, -, htext, hloaded, rfl, rfl⟩ := exec_prepare_eq_ok_iff.mp hprepare
    have hfiles := (prepares_prepare s i).wrote hprepare
    rcases work_cases hfiles hwork with
      hidle' | ⟨hdry, m', p', r', q', hpatched, hp', hdeliver, hq, rfl⟩
    · exact .inl (hidle hidle')
    · refine .inr ⟨hdry, m, m', p', q', ⟨hloaded, text, htext, hpatched⟩, hp', ?_⟩
      have hcode := (ends_deliverAll s i (modified m m')).code p'
      rw [hdeliver] at hcode ⊢
      cases r' with
      | ok u => exact ⟨hq, .inl ⟨rfl, rfl⟩⟩
      | error e =>
        cases e with
        | exit n => cases hcode n rfl
        | abort a => exact ⟨hq, .inr ⟨a, rfl, rfl⟩⟩

/-- How a run goes on once the blueprints have been loaded. -/
theorem run_of_loaded {arguments : List String} {settings : Settings}
    (h : interpret arguments = .ok i)
    (hsettings : Settings.load i.config s.environment s.disk = .ok settings)
    (hlevel : checkLevel settings = .ok ()) (htext : givenPatch s i.patch = .ok text)
    (hloaded : Loaded s i m) :
    run s arguments = Result.of (exec (work s i settings text (i.store.map Path.ofText) m)
      ⟨opened i.store s.disk, ""⟩) := by
  have hprepare : exec (prepare s i) ⟨s.disk, ""⟩ = _ :=
    exec_prepare_eq_ok_iff.mpr ⟨hsettings, hlevel, htext, hloaded, rfl, rfl⟩
  rw [run_eq h, carryOut_eq, exec_bind_of_ok hprepare]

theorem forall₂_imports_unique {d : Disk} {names : List (Option String)}
    {drafts drafts' : List (List BlueprintDraft)} (h : List.Forall₂ (Imports d) names drafts)
    (h' : List.Forall₂ (Imports d) names drafts') : drafts = drafts' := by
  induction h generalizing drafts' with
  | nil =>
    cases h'
    rfl
  | cons hfirst _ ih =>
    cases h' with
    | cons hfirst' hrest' =>
      obtain ⟨text, rfl, himport⟩ := hfirst
      obtain ⟨text', htext, himport'⟩ := hfirst'
      obtain rfl := Option.some.inj htext
      rw [Except.ok.inj (himport.symm.trans himport'), ih hrest']

theorem Loaded.unique (h : Loaded s i m) (h' : Loaded s i m') : m = m' := by
  obtain ⟨stored, exported, hstored, hexported, rfl⟩ := h.model
  obtain ⟨stored', exported', hstored', hexported', rfl⟩ := h'.model
  rw [Except.ok.inj (hstored.symm.trans hstored'), forall₂_imports_unique hexported hexported']

end BlueprintPatch.CommandLine

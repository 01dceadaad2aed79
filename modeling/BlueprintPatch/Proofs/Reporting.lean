import BlueprintPatch.Proofs.Delivery

/-! Which faults abort a run. Most of what can be wrong with a patch, with an export or with the
store is reported and makes the run end with exit code one; the faults that are not are listed
here, stage by stage. Once the blueprints have been loaded, neither a dry run nor the application of
the patch is ever aborted: only the delivery of what the patch has modified is. -/
namespace BlueprintPatch

theorem Engine.apply_returns {σ : Type} (sink : Sink σ) (text : Json) (e : Engine) (t : σ)
    (hclosed : e.scope.isOpen = false)
    (hsink : ∀ report told t, (sink report told t).2.2 = none) :
    ∃ o, (e.apply sink text t).2.2 = .ok o := by
  have hcourse := course sink t text e
  generalize e.apply sink text t = result at hcourse
  cases hcourse with
  | busy => exact ⟨_, rfl⟩
  | empty => exact ⟨_, rfl⟩
  | opened _ ho _ => simp [Scope.isOpen, ho] at hclosed
  | completed =>
    rw [finish_of_returned (hsink _ _ _)]
    exact ⟨_, rfl⟩
  | refused =>
    rw [finish_of_returned (hsink _ _ _)]
    exact ⟨_, rfl⟩

namespace CommandLine

section
variable {α β : Type} {c : Step α} {f : α → Step β} {p q : Progress} {a : Abort}

/-- The step aborts the run. -/
def Aborts (c : Step α) (p : Progress) (a : Abort) : Prop := (exec c p).1 = .error (.abort a)

@[simp] theorem not_aborts_pure (x : α) : ¬ Aborts (pure x : Step α) p a := nofun

@[simp] theorem not_aborts_say (line : String) : ¬ Aborts (say line) p a := nofun

@[simp] theorem not_aborts_giveUp (line : String) : ¬ Aborts (giveUp line : Step α) p a := by
  simp [Aborts, giveUp, exec_bind]

@[simp] theorem aborts_throw_iff {b : Abort} :
    Aborts (throw (.abort b) : Step α) p a ↔ a = b := by
  simp [Aborts, eq_comm]

theorem aborts_bind_iff :
    Aborts (c >>= f) p a ↔ Aborts c p a ∨ ∃ x q, exec c p = (.ok x, q) ∧ Aborts (f x) q a := by
  simp only [Aborts, exec_bind]
  generalize exec c p = first
  obtain ⟨e | x, q⟩ := first <;> simp

theorem aborts_bind_of_ok {x : α} (h : exec c p = (.ok x, q)) :
    Aborts (c >>= f) p a ↔ Aborts (f x) q a := by
  rw [Aborts, exec_bind_of_ok h, Aborts]

theorem Prepares.failed {e : Ending} (hc : Prepares c) (h : exec c p = (.error e, q)) :
    e = .exit 1 ∨ ∃ a, e = .abort a ∧ Aborts c p a := by
  cases e with
  | exit n =>
    obtain rfl : n = 1 := hc.code p n (by rw [h])
    exact .inl rfl
  | abort a => exact .inr ⟨a, rfl, by rw [Aborts, h]⟩

/-- The step never aborts the run. -/
def Calm (c : Step α) : Prop := ∀ p a, ¬ Aborts c p a

theorem Calm.bind (hc : Calm c) (hf : ∀ x, Calm (f x)) : Calm (c >>= f) := by
  intro p a h
  rcases aborts_bind_iff.mp h with hfirst | ⟨x, q, -, hrest⟩
  · exact hc p a hfirst
  · exact hf x q a hrest

theorem Calm.forM {xs : List α} {f : α → Step PUnit} (hf : ∀ x, Calm (f x)) :
    Calm (xs.forM f) := by
  induction xs with
  | nil => exact fun p a => not_aborts_pure _
  | cons x xs ih => exact .bind (hf x) fun _ => ih

end

variable {s : Surroundings} {i : Invocation} {m : Model} {p q : Progress} {a : Abort} {d : Disk}
  {text : String}

/-- A fault of the patch that is not reported: its bytes are no text, or its name cannot even be
asked for. -/
inductive PatchFault (s : Surroundings) (name : String) : Abort → Prop
  | undecodable {fault : Utf8.Fault} (h : givenPatch s name = .error (.undecodable fault)) :
      PatchFault s name (.undecodable fault)
  | unasked {e : DiskError} (h : givenPatch s name = .error (.disk e)) (he : e.isRefusal = false) :
      PatchFault s name (.disk e)

theorem readPatch_eq (s : Surroundings) (name : String) :
    readPatch s name = match givenPatch s name with
      | .ok text => pure text
      | .error (.disk e) =>
        if e.isRefusal then giveUp ("[ERROR] Cannot read patch: " ++ e.message)
        else throw (.abort (.disk e))
      | .error (.undecodable fault) => throw (.abort (.undecodable fault)) := rfl

theorem aborts_readPatch_iff {name : String} :
    Aborts (readPatch s name) p a ↔ PatchFault s name a := by
  rw [readPatch_eq]
  cases hgiven : givenPatch s name with
  | ok text =>
    refine iff_of_false (not_aborts_pure _) ?_
    rintro (⟨h⟩ | ⟨h, he⟩) <;> cases hgiven.symm.trans h
  | error e =>
    cases e with
    | disk e =>
      constructor
      · intro h
        dsimp only at h
        split at h
        · exact absurd h (not_aborts_giveUp _)
        · rename_i he
          rw [aborts_throw_iff.mp h]
          exact .unasked hgiven (by simpa using he)
      · rintro (⟨h⟩ | ⟨h, he⟩)
        · cases hgiven.symm.trans h
        · cases hgiven.symm.trans h
          simp [he]
    | undecodable fault =>
      constructor
      · intro h
        rw [aborts_throw_iff.mp h]
        exact .undecodable hgiven
      · rintro (⟨h⟩ | ⟨h, he⟩)
        · cases hgiven.symm.trans h
          exact aborts_throw_iff.mpr rfl
        · cases hgiven.symm.trans h

theorem aborts_openStore_iff {directory : String} :
    Aborts (openStore directory) p a ↔
      ∃ e, (Store.create (Path.ofText directory) p.disk).2 = .error e ∧ a = .disk e := by
  simp only [Aborts, openStore, exec_bind, exec_currentDisk, exec_setDisk]
  cases (Store.create (Path.ofText directory) p.disk).2 with
  | ok u => simp [aborting]
  | error e => simp [aborting, eq_comm]

theorem aborts_openStores_iff {store : Option String} :
    Aborts (store.mapM openStore) p a ↔ ∃ directory e, store = some directory ∧
      (Store.create (Path.ofText directory) p.disk).2 = .error e ∧ a = .disk e := by
  cases store with
  | none => simp [Option.mapM_none]
  | some directory =>
    rw [Option.mapM_some, map_eq_pure_bind, aborts_bind_iff]
    simp [aborts_openStore_iff]

theorem aborts_loadStores_iff {store : Option Path} :
    Aborts (loadStores store) p a ↔
      ∃ e, storedIn store p.disk = .error (.tooDeep e) ∧ a = .store (.tooDeep e) := by
  cases store with
  | none => simp [loadStores, storedIn]
  | some base =>
    rw [loadStores, loadStore, aborts_bind_of_ok (exec_currentDisk p), storedIn]
    split
    · rename_i hlist
      simp [hlist]
    · rename_i e hlist
      simp [hlist]
    · rename_i e hne hlist
      refine iff_of_false (not_aborts_giveUp _) ?_
      rintro ⟨e', htooDeep, -⟩
      exact hne e' (Except.error.inj (hlist.symm.trans htooDeep))

/-- A fault of an export that is not reported: it has no name, its text nests too deep, or one of
its values is of a type that cannot be taken for the wanted one. -/
inductive ExportFault (d : Disk) : Option String → Abort → Prop
  | unnamed : ExportFault d none .unnamedExport
  | tooDeep {name text : String} {c : Json.Container}
      (h : d.importFile (.verbatim name) = .error (.file (.json text (.tooDeep c)))) :
      ExportFault d (some name) (.blueprint (.file (.json text (.tooDeep c))))
  | mistyped {name : String} {e : CoercionError}
      (h : d.importFile (.verbatim name) = .error (.context (.coercion e)))
      (he : ∀ t, e ≠ .badNumberText t) :
      ExportFault d (some name) (.blueprint (.context (.coercion e)))

theorem isReported_eq_false_iff {e : ImportFileError} :
    isReported e = false ↔ (∃ text c, e = .file (.json text (.tooDeep c))) ∨
      ∃ e', e = .context (.coercion e') ∧ ∀ t, e' ≠ .badNumberText t := by
  unfold isReported
  split <;> simp_all

theorem exportFault_iff {name : String} :
    ExportFault d (some name) a ↔ ∃ e, d.importFile (.verbatim name) = .error e ∧
      isReported e = false ∧ a = .blueprint e := by
  constructor
  · rintro (_ | h | ⟨h, he⟩)
    · exact ⟨_, h, rfl, rfl⟩
    · exact ⟨_, h, isReported_eq_false_iff.mpr (.inr ⟨_, rfl, he⟩), rfl⟩
  · rintro ⟨e, h, hreported, rfl⟩
    rcases isReported_eq_false_iff.mp hreported with ⟨text, c, rfl⟩ | ⟨e', rfl, he⟩
    · exact .tooDeep h
    · exact .mistyped h he

theorem aborts_loadExport_iff {name : Option String} :
    Aborts (loadExport name) p a ↔ ExportFault p.disk name a := by
  cases name with
  | none =>
    rw [loadExport, aborts_throw_iff]
    constructor
    · rintro rfl
      exact .unnamed
    · rintro ⟨⟩
      rfl
  | some name =>
    rw [loadExport, aborts_bind_of_ok (exec_currentDisk p), exportFault_iff]
    cases himport : p.disk.importFile (.verbatim name) with
    | ok drafts => simp
    | error e => cases hreported : isReported e <;> simp [hreported, cannotLoad]

theorem aborts_mapM_loadExport_iff {names : List (Option String)} :
    Aborts (names.mapM loadExport) p a ↔ ∃ before name after drafts,
      names = before ++ name :: after ∧ List.Forall₂ (Imports p.disk) before drafts ∧
        ExportFault p.disk name a := by
  induction names with
  | nil => simp
  | cons name names ih =>
    rw [List.mapM_cons]
    simp only [aborts_bind_iff, aborts_loadExport_iff, exec_loadExport_eq_ok_iff, not_aborts_pure,
      and_false, exists_false, or_false]
    constructor
    · rintro (hfault | ⟨drafts, _, ⟨himports, rfl⟩, hrest⟩)
      · exact ⟨[], name, names, [], rfl, .nil, hfault⟩
      · obtain ⟨before, faulty, after, loaded, rfl, hbefore, hfault⟩ := ih.mp hrest
        exact ⟨name :: before, faulty, after, drafts :: loaded, rfl, .cons himports hbefore, hfault⟩
    · rintro ⟨before, faulty, after, loaded, hnames, hbefore, hfault⟩
      cases hbefore with
      | nil =>
        obtain ⟨rfl, rfl⟩ := List.cons.inj hnames
        exact .inl hfault
      | cons himports hbefore =>
        obtain ⟨rfl, rfl⟩ := List.cons.inj hnames
        exact .inr ⟨_, p, ⟨himports, rfl⟩, ih.mpr ⟨_, faulty, after, _, rfl, hbefore, hfault⟩⟩

/-- A fault that aborts the run before anything has been done with the blueprints: it is one of
the patch, or of the directory of the store, or of a file in the store, or of an export, and at
the stages before it there was none. What is printed is no source of faults: standard output is
taken to accept every text. -/
inductive Unreported (s : Surroundings) (i : Invocation) : Abort → Prop
  | patch {a : Abort} (h : PatchFault s i.patch a) : Unreported s i a
  | store {text directory : String} {e : DiskError} (htext : givenPatch s i.patch = .ok text)
      (hstore : i.store = some directory)
      (h : (Store.create (Path.ofText directory) s.disk).2 = .error e) : Unreported s i (.disk e)
  | stored {text : String} {e : FileError} (htext : givenPatch s i.patch = .ok text)
      (hopens : Opens i.store s.disk)
      (h : storedIn (i.store.map Path.ofText) (opened i.store s.disk) = .error (.tooDeep e)) :
      Unreported s i (.store (.tooDeep e))
  | exported {text : String} {stored : List BlueprintDraft} {before after : List (Option String)}
      {name : Option String} {drafts : List (List BlueprintDraft)} {a : Abort}
      (htext : givenPatch s i.patch = .ok text) (hopens : Opens i.store s.disk)
      (hstored : storedIn (i.store.map Path.ofText) (opened i.store s.disk) = .ok stored)
      (hexports : i.blueprints = before ++ name :: after)
      (hbefore : List.Forall₂ (Imports (opened i.store s.disk)) before drafts)
      (h : ExportFault (opened i.store s.disk) name a) : Unreported s i a

theorem aborts_loadModel_iff {store : Option Path} {exports : List (Option String)} {seed : Nat} :
    Aborts (loadModel store exports seed) p a ↔
      (∃ e, storedIn store p.disk = .error (.tooDeep e) ∧ a = .store (.tooDeep e)) ∨
      ∃ stored before name after drafts, storedIn store p.disk = .ok stored ∧
        exports = before ++ name :: after ∧ List.Forall₂ (Imports p.disk) before drafts ∧
        ExportFault p.disk name a := by
  rw [loadModel_eq]
  simp only [aborts_bind_iff, aborts_loadStores_iff, exec_loadStores_eq_ok_iff,
    aborts_mapM_loadExport_iff, not_aborts_pure, and_false, exists_false, or_false]
  refine or_congr_right ?_
  constructor
  · rintro ⟨stored, _, ⟨hstored, rfl⟩, before, name, after, drafts, hexports, hbefore, h⟩
    exact ⟨stored, before, name, after, drafts, hstored, hexports, hbefore, h⟩
  · rintro ⟨stored, before, name, after, drafts, hstored, hexports, hbefore, h⟩
    exact ⟨stored, p, ⟨hstored, rfl⟩, before, name, after, drafts, hexports, hbefore, h⟩

theorem aborts_prepare_iff {settings : Settings} {out : String}
    (hsettings : Settings.load i.config s.environment s.disk = .ok settings)
    (hlevel : checkLevel settings = .ok ()) :
    Aborts (prepare s i) ⟨s.disk, out⟩ a ↔ Unreported s i a := by
  rw [prepare, aborts_bind_of_ok (exec_aborting_eq_ok_iff.mpr ⟨hsettings, rfl⟩),
    aborts_bind_of_ok (exec_aborting_eq_ok_iff.mpr ⟨hlevel, rfl⟩)]
  simp only [aborts_bind_iff, aborts_readPatch_iff, exec_readPatch_eq_ok_iff,
    aborts_openStores_iff, exec_openStores_eq_ok_iff, aborts_loadModel_iff, not_aborts_pure,
    and_false, exists_false, or_false]
  constructor
  · rintro (hpatch | ⟨text, _, ⟨htext, rfl⟩, ⟨directory, e, hstore, h, rfl⟩ |
      ⟨_, _, ⟨hopens, rfl, rfl⟩, ⟨e, h, rfl⟩ |
        ⟨stored, before, name, after, drafts, hstored, hexports, hbefore, h⟩⟩⟩)
    · exact .patch hpatch
    · exact .store htext hstore h
    · exact .stored htext hopens h
    · exact .exported htext hopens hstored hexports hbefore h
  · rintro (hpatch | ⟨htext, hstore, h⟩ | ⟨htext, hopens, h⟩ |
      ⟨htext, hopens, hstored, hexports, hbefore, h⟩)
    · exact .inl hpatch
    · exact .inr ⟨_, _, ⟨htext, rfl⟩, .inl ⟨_, _, hstore, h, rfl⟩⟩
    · exact .inr ⟨_, _, ⟨htext, rfl⟩, .inr ⟨_, _, ⟨hopens, rfl, rfl⟩, .inl ⟨_, h, rfl⟩⟩⟩
    · exact .inr ⟨_, _, ⟨htext, rfl⟩, .inr ⟨_, _, ⟨hopens, rfl, rfl⟩,
        .inr ⟨_, _, _, _, _, hstored, hexports, hbefore, h⟩⟩⟩

theorem exec_dryRun_ends {patch : Json} {e : Engine} {r : Except Ending Nat}
    (h : exec (dryRun patch e) p = (r, q)) : r = .ok 0 ∨ r = .error (.exit 1) := by
  unfold dryRun at h
  split at h
  · obtain ⟨rfl, -⟩ := Prod.mk.inj h
    exact .inr rfl
  · obtain ⟨rfl, -⟩ := Prod.mk.inj h
    exact .inl rfl

/-- The sink of a run only takes notes, so that the application of the patch returns. -/
theorem calm_applyPatch (text : Json) (m : Model) (depth : Int) (label : String) :
    Calm (applyPatch text (Engine.new m depth label)) := by
  obtain ⟨o, ho⟩ := Engine.apply_returns notify text (Engine.new m depth label) [] rfl
    fun _ _ _ => rfl
  simp only [applyPatch, ho]
  refine .bind (fun _ _ => not_aborts_pure _) fun o => ?_
  refine .bind (.forM fun _ _ _ => not_aborts_say _) fun _ p a => ?_
  split
  · exact not_aborts_giveUp _
  · exact not_aborts_pure _

/-- How the work on the blueprints ends: with an exit code, or aborted in the delivery. -/
theorem exec_work_ends {settings : Settings} {r : Except Ending Nat}
    (h : exec (work s i settings text (i.store.map Path.ofText) m) p = (r, q)) :
    r = .ok 0 ∨ r = .error (.exit 1) ∨ i.dryRun = false ∧
      ∃ m' a, runInTurn (Document.ofValue (.str text)).operations m = .ok m' ∧
        r = .error (.abort a) ∧ ∃ b ∈ modified m m', ∃ d d',
          Undelivered i.store i.exportDir s.time b d d' a := by
  rw [work, exec_bind_of_ok (exec_say _ _)] at h
  by_cases hdry : i.dryRun = true
  · rw [if_pos hdry] at h
    rcases exec_dryRun_ends h with hzero | hone
    · exact .inl hzero
    · exact .inr (.inl hone)
  · rw [if_neg hdry] at h
    rcases exec_bind_cases h with ⟨e, hfailed, rfl⟩ | ⟨⟨e, o⟩, p', happly, hrest⟩
    · rcases Prepares.failed (prepares_applyPatch _ _) hfailed with rfl | ⟨a, -, haborts⟩
      · exact .inr (.inl rfl)
      · exact absurd haborts (calm_applyPatch _ _ _ _ _ _)
    · rcases exec_bind_cases hrest with ⟨e', hfailed, rfl⟩ | ⟨_, p'', -, hlast⟩
      · obtain ⟨before, b, after, p₁, hbs, -, hlast⟩ := exec_deliverAll_error hfailed
        rcases exec_deliver hlast with ⟨_, -, -, hok⟩ | ⟨a, hundelivered, ha⟩
        · cases hok
        · cases ha
          have hmodified : b ∈ modified m e.model := by simp [hbs]
          exact .inr (.inr ⟨by simpa using hdry, e.model, a, patched_of_exec_applyPatch happly,
            rfl, b, hmodified, _, _, hundelivered⟩)
      · rw [exec_bind_of_ok (exec_say _ _)] at hlast
        obtain ⟨rfl, -⟩ := Prod.mk.inj hlast
        exact .inl rfl

theorem run_of_unreported {arguments : List String} {settings : Settings}
    (h : interpret arguments = .ok i)
    (hsettings : Settings.load i.config s.environment s.disk = .ok settings)
    (hlevel : checkLevel settings = .ok ()) (ha : Unreported s i a) :
    (run s arguments).exit = .error a := by
  have hprepare : Aborts (prepare s i) ⟨s.disk, ""⟩ a :=
    (aborts_prepare_iff hsettings hlevel).mpr ha
  have hrun : Aborts (carryOut s i) ⟨s.disk, ""⟩ a := by
    rw [carryOut_eq]
    exact aborts_bind_iff.mpr (.inl hprepare)
  rw [run_eq h]
  generalize hend : exec (carryOut s i) ⟨s.disk, ""⟩ = ending at *
  rw [Aborts, hend] at hrun
  obtain ⟨r, q⟩ := ending
  obtain rfl : r = .error (.abort a) := hrun
  rfl

/-- An unreported fault aborts the run. Any other run that can load its settings ends with exit code
zero or one, but for those that are not dry, have applied the patch and are aborted while they
deliver one of the blueprints that it has modified. -/
theorem aborts_only_unreported {arguments : List String} {settings : Settings}
    (h : interpret arguments = .ok i)
    (hsettings : Settings.load i.config s.environment s.disk = .ok settings)
    (hlevel : checkLevel settings = .ok ()) :
    (∀ a, Unreported s i a → (run s arguments).exit = .error a) ∧
    ((run s arguments).exit = .ok 0 ∨ (run s arguments).exit = .ok 1 ∨
      ∃ a, (run s arguments).exit = .error a ∧ (Unreported s i a ∨
        i.dryRun = false ∧ ∃ m m', Patched s i m m' ∧ ∃ b ∈ modified m m', ∃ d d',
          Undelivered i.store i.exportDir s.time b d d' a)) := by
  refine ⟨fun a ha => run_of_unreported h hsettings hlevel ha, ?_⟩
  rw [run_eq h]
  generalize hend : exec (carryOut s i) ⟨s.disk, ""⟩ = ending
  obtain ⟨r, q⟩ := ending
  rw [carryOut_eq] at hend
  rcases exec_bind_cases hend with
    ⟨e, hfailed, rfl⟩ | ⟨⟨settings', text, store, m⟩, p, hprepare, hwork⟩
  · rcases Prepares.failed (prepares_prepare s i) hfailed with rfl | ⟨a, rfl, haborts⟩
    · exact .inr (.inl rfl)
    · exact .inr (.inr ⟨a, rfl, .inl ((aborts_prepare_iff hsettings hlevel).mp haborts)⟩)
  · obtain ⟨-, -, htext, hloaded, rfl, rfl⟩ := exec_prepare_eq_ok_iff.mp hprepare
    rcases exec_work_ends hwork with rfl | rfl | ⟨hdry, m', a, hpatched, rfl, hundelivered⟩
    · exact .inl rfl
    · exact .inr (.inl rfl)
    · have hrun : Patched s i m m' := ⟨hloaded, text, htext, hpatched⟩
      exact .inr (.inr ⟨a, rfl, .inr ⟨hdry, m, m', hrun, hundelivered⟩⟩)

/-- A patch that no text can be read from, and a door without a place for one of its nodes. -/
def attic : Surroundings where
  environment := [("HOME", "home")]
  input := .text ""
  disk := ⟨[(["patch.json"], .file (.ofBytes [0xff])),
    (["rename.json"], .file (.text (renameOf "Lit"))),
    (["door.json"], .file (.text (braced ("\"name\":\"Door\",\"graphs\":[" ++
      braced ("\"nodes\":[" ++ braced "\"posX\":null" ++ "]") ++ "]"))))]⟩
  time := ""
  seed := 0

theorem settings_attic (h : i.config = none) :
    Settings.load i.config attic.environment attic.disk = .ok defaultSettings := by
  rw [h]
  rfl

def dryArguments : List String := ["patch.json", "--dry-run"]

def dry : Invocation := ⟨"patch.json", [], none, none, true, none⟩

theorem undecodable_patch_aborts :
    interpret dryArguments = .ok dry ∧
    Settings.load dry.config attic.environment attic.disk = .ok defaultSettings ∧
    checkLevel defaultSettings = .ok () ∧
    (run attic dryArguments).exit = .error (.undecodable ⟨.invalidStart, 0xff, 0, 1⟩) := by
  have harguments : interpret dryArguments = .ok dry := by decide +kernel
  have hsettings := settings_attic (i := dry) rfl
  have hlevel : checkLevel defaultSettings = .ok () := rfl
  have hpatch : givenPatch attic dry.patch =
      .error (.undecodable ⟨.invalidStart, 0xff, 0, 1⟩) := rfl
  exact ⟨harguments, hsettings, hlevel,
    run_of_unreported harguments hsettings hlevel (.patch (.undecodable hpatch))⟩

def doorArguments : List String := ["rename.json", "--blueprint", "door.json"]

def doorOnly : Invocation := ⟨"rename.json", [some "door.json"], none, none, false, none⟩

theorem aborts_only_unreported_door :
    interpret doorArguments = .ok doorOnly ∧
    Settings.load doorOnly.config attic.environment attic.disk = .ok defaultSettings ∧
    checkLevel defaultSettings = .ok () ∧
    (run attic doorArguments).exit =
      .error (.blueprint (.context (.coercion (.notNumber "NoneType")))) := by
  have harguments : interpret doorArguments = .ok doorOnly := by decide +kernel
  have hsettings := settings_attic (i := doorOnly) rfl
  have hlevel : checkLevel defaultSettings = .ok () := rfl
  have hpatch : givenPatch attic doorOnly.patch = .ok (renameOf "Lit") := rfl
  have himport : (opened doorOnly.store attic.disk).importFile (.verbatim "door.json") =
      .error (.context (.coercion (.notNumber "NoneType"))) := rfl
  have hfault : Unreported attic doorOnly
      (.blueprint (.context (.coercion (.notNumber "NoneType")))) :=
    .exported hpatch nofun rfl rfl .nil (.mistyped himport nofun)
  exact ⟨harguments, hsettings, hlevel,
    (aborts_only_unreported harguments hsettings hlevel).1 _ hfault⟩

end CommandLine

end BlueprintPatch

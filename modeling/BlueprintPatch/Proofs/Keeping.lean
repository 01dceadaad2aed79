import BlueprintPatch.Proofs.Filing

/-! Blueprints in the store over any run of saves and deletions. The store keeps the states that
have been saved key by key, so it keeps those of a blueprint as long as no other blueprint with the
same key is saved or deleted. -/
namespace BlueprintPatch.Store

open Disk

/-- A request to the store. -/
inductive Call
  | save (time : String) (b : Blueprint)
  | delete (identifier : String)
deriving DecidableEq

inductive Outcome
  | saved (version : Int)
  | unsaved (e : StoreError)
  | deleted
  | absent
  | undeleted (e : StoreError)
deriving DecidableEq

def Outcome.ofSave : Disk × Except StoreError Int → Disk × Outcome
  | (d, .ok n) => (d, .saved n)
  | (d, .error e) => (d, .unsaved e)

def Outcome.ofDelete (d : Disk) : Except StoreError (Disk × Bool) → Disk × Outcome
  | .ok (d, true) => (d, .deleted)
  | .ok (d, false) => (d, .absent)
  | .error e => (d, .undeleted e)

namespace Call

/-- What the blueprint that the request is about is called by: its path, or its name. -/
def identifier : Call → String
  | .save _ b => if b.path = "" then b.name else b.path
  | .delete identifier => identifier

def key (c : Call) : String := Store.key c.identifier

def perform (base : Path) (c : Call) (d : Disk) : Disk × Outcome :=
  match c with
  | .save time b => Outcome.ofSave (Store.save base time b d)
  | .delete identifier => Outcome.ofDelete d (Store.delete base identifier d)

end Call

def performAll (base : Path) : List Call → Disk → Disk × List (Call × Outcome)
  | [], d => (d, [])
  | c :: rest, d =>
    let (d, outcome) := c.perform base d
    let (d, events) := performAll base rest d
    (d, (c, outcome) :: events)

/-- One more request: a save adds a state, a deletion leaves none. Only requests of a kind count. -/
def keep (about : Call → Bool) (states : List (Int × Blueprint)) :
    Call × Outcome → List (Int × Blueprint)
  | (.save time b, .saved n) => if about (.save time b) then states ++ [(n, b)] else states
  | (.delete identifier, .deleted) => if about (.delete identifier) then [] else states
  | _ => states

/-- The states that requests of a kind have saved since the last deletion by one of them. -/
def kept (about : Call → Bool) (events : List (Call × Outcome)) : List (Int × Blueprint) :=
  events.foldl (keep about) []

variable {base : Path} {k : String} {d d' : Disk} {c : Call} {outcome : Outcome}
  {states : List (Int × Blueprint)} {n : Int} {b : Blueprint}

/-- The state has been saved as version `n`, under a number above all that were there. -/
structure Saves (base : Path) (n : Int) (b : Blueprint) (d d' : Disk) : Prop where
  fresh : ∀ m c, Holds base (keyFor b) (versionName m) c d → m < n
  changes : Changes base (keyFor b) (savedNames n) d d'
  version : Stored base (keyFor b) (versionName n) b.record d'
  current : Stored base (keyFor b) "current.json" b.record d'

/-- What a request can do: nothing, a save, half a save, or a deletion. -/
theorem perform_cases (hp : Open base d) (hk : Apart base c.key)
    (h : c.perform base d = (d', outcome)) :
    (d' = d ∧ ∀ about states, keep about states (c, outcome) = states) ∨
    (∃ time b n, c = .save time b ∧ outcome = .saved n ∧ Saves base n b d d') ∨
    (∃ time b e n, c = .save time b ∧ outcome = .unsaved e ∧
      (∀ m c, Holds base (keyFor b) (versionName m) c d → m < n) ∧
      Changes base (keyFor b) (savedNames n) d d') ∨
    ∃ identifier, c = .delete identifier ∧ outcome = .deleted ∧
      Within (home base ++ [c.key]) d d' := by
  cases c with
  | save time b =>
    simp only [Call.perform] at h
    generalize hsave : Store.save base time b d = saved at h
    obtain ⟨d₁, r⟩ := saved
    have hcases := save_cases hp hk hsave
    cases r with
    | ok m =>
      obtain ⟨rfl, rfl⟩ := Prod.mk.inj h
      rcases hcases with ⟨-, e, he⟩ | ⟨n, hfresh, hchanges, hstored⟩
      · simp at he
      · obtain ⟨rfl, hversion, hcurrent⟩ := hstored m rfl
        exact .inr (.inl ⟨time, b, m, rfl, rfl, hfresh, hchanges, hversion, hcurrent⟩)
    | error e =>
      obtain ⟨rfl, rfl⟩ := Prod.mk.inj h
      rcases hcases with ⟨rfl, -⟩ | ⟨n, hfresh, hchanges, -⟩
      · exact .inl ⟨rfl, fun _ _ => rfl⟩
      · exact .inr (.inr (.inl ⟨time, b, e, n, rfl, rfl, hfresh, hchanges⟩))
  | delete identifier =>
    simp only [Call.perform] at h
    generalize hdelete : Store.delete base identifier d = r at h
    cases r with
    | error e =>
      obtain ⟨rfl, rfl⟩ := Prod.mk.inj h
      exact .inl ⟨rfl, fun _ _ => rfl⟩
    | ok result =>
      obtain ⟨d₁, deleted⟩ := result
      obtain ⟨hwithin, hnone⟩ := within_delete hp hk.isName hdelete
      cases deleted with
      | false =>
        obtain ⟨rfl, rfl⟩ := Prod.mk.inj h
        exact .inl ⟨hnone rfl, fun _ _ => rfl⟩
      | true =>
        obtain ⟨rfl, rfl⟩ := Prod.mk.inj h
        exact .inr (.inr (.inr ⟨identifier, rfl, rfl, hwithin⟩))

theorem within_perform (hp : Open base d) (hk : Apart base c.key)
    (h : c.perform base d = (d', outcome)) : Within (home base ++ [c.key]) d d' := by
  rcases perform_cases hp hk h with ⟨rfl, -⟩ | ⟨time, b, n, rfl, -, hsaves⟩ |
    ⟨time, b, e, n, rfl, -, -, hchanges⟩ | ⟨identifier, -, -, hwithin⟩
  · exact Within.refl _ d'
  · exact hsaves.changes.within
  · exact hchanges.within
  · exact hwithin

/-- The versions of a key are on the disk. -/
def KeepsVersions (base : Path) (k : String) (states : List (Int × Blueprint)) (d : Disk) : Prop :=
  ∀ n b, (n, b) ∈ states → Stored base k (versionName n) b.record d

/-- The last one is the current state, too. -/
def KeepsCurrent (base : Path) (k : String) (states : List (Int × Blueprint)) (d : Disk) : Prop :=
  ∀ n b, states.getLast? = some (n, b) → Stored base k "current.json" b.record d

theorem Stored.of_within {f k' : String} {v : Json} (h : Stored base k f v d)
    (hd : Within (home base ++ [k']) d d') (hne : k' ≠ k) : Stored base k f v d' := by
  refine ⟨h.isWritable, h.holds.of_within hd fun hbelow => ?_⟩
  have hsame := (List.prefix_append_right_inj (home base)).mp hbelow
  simp_all

theorem Stored.of_changes {f : String} {v : Json} {names : List String}
    (h : Stored base k f v d) (hd : Changes base k names d d') (hf : f ∉ names) :
    Stored base k f v d' := ⟨h.isWritable, hd.spares f _ hf h.holds⟩

theorem keep_of_ne (h : c.key ≠ k) (outcome : Outcome) :
    keep (fun c => c.key = k) states (c, outcome) = states := by
  cases c <;> cases outcome <;> simp [keep, h]

theorem versionName_not_mem_savedNames {m : Int} (h : m < n) : versionName m ∉ savedNames n := by
  have hversion : versionName m ≠ versionName n := fun heq => h.ne (versionName_inj heq)
  have hcurrent : versionName m ≠ "current.json" := versionName_ne (by decide) m
  have hindex : versionName m ≠ "index.json" := versionName_ne (by decide) m
  simp [savedNames, hversion, hcurrent, hindex]

theorem KeepsVersions.of_changes (hv : KeepsVersions base k states d)
    (hfresh : ∀ m c, Holds base k (versionName m) c d → m < n)
    (hd : Changes base k (savedNames n) d d') : KeepsVersions base k states d' := by
  intro m b hmem
  have hstored := hv m b hmem
  exact hstored.of_changes hd (versionName_not_mem_savedNames (hfresh m _ hstored.holds))

theorem KeepsVersions.perform (hv : KeepsVersions base k states d) (hp : Open base d)
    (hk : Apart base c.key) (h : c.perform base d = (d', outcome)) :
    KeepsVersions base k (keep (fun c => c.key = k) states (c, outcome)) d' := by
  by_cases hkey : c.key = k
  · subst hkey
    rcases perform_cases hp hk h with ⟨rfl, hkeep⟩ | ⟨time, b, n, rfl, rfl, hsaves⟩ |
      ⟨time, b, e, n, rfl, rfl, hfresh, hchanges⟩ | ⟨identifier, rfl, rfl, -⟩
    · rwa [hkeep]
    · simp only [keep, decide_true, if_true]
      intro m b' hmem
      rcases List.mem_append.mp hmem with hmem | hmem
      · exact hv.of_changes hsaves.fresh hsaves.changes m b' hmem
      · obtain ⟨rfl, rfl⟩ := Prod.mk.inj (List.mem_singleton.mp hmem)
        exact hsaves.version
    · exact hv.of_changes hfresh hchanges
    · simp [keep, KeepsVersions]
  · rw [keep_of_ne hkey]
    intro m b hmem
    exact (hv m b hmem).of_within (within_perform hp hk h) hkey

theorem KeepsCurrent.perform (hc : KeepsCurrent base k states d) (hp : Open base d)
    (hk : Apart base c.key) (h : c.perform base d = (d', outcome))
    (hsaved : ∀ e, outcome = .unsaved e → c.key ≠ k) :
    KeepsCurrent base k (keep (fun c => c.key = k) states (c, outcome)) d' := by
  by_cases hkey : c.key = k
  · subst hkey
    rcases perform_cases hp hk h with ⟨rfl, hkeep⟩ | ⟨time, b, n, rfl, rfl, hsaves⟩ |
      ⟨time, b, e, n, rfl, rfl, hfresh, hchanges⟩ | ⟨identifier, rfl, rfl, -⟩
    · rwa [hkeep]
    · simp only [keep, decide_true, if_true]
      intro m b' hlast
      rw [List.getLast?_concat] at hlast
      obtain ⟨rfl, rfl⟩ := Prod.mk.inj (Option.some.inj hlast)
      exact hsaves.current
    · exact absurd rfl (hsaved e rfl)
    · simp [keep, KeepsCurrent]
  · rw [keep_of_ne hkey]
    intro m b hlast
    exact (hc m b hlast).of_within (within_perform hp hk h) hkey

variable {calls : List Call}

theorem open_performAll (hp : Open base d) (hcalls : ∀ c ∈ calls, Apart base c.key) :
    Open base (performAll base calls d).1 := by
  induction calls generalizing d with
  | nil => exact hp
  | cons c calls ih =>
    have hc := hcalls c List.mem_cons_self
    have hstep := hp.of_within hc (within_perform hp hc rfl)
    exact ih hstep fun c hc => hcalls c (List.mem_cons_of_mem _ hc)

theorem keepsVersions_performAll (hv : KeepsVersions base k states d) (hp : Open base d)
    (hcalls : ∀ c ∈ calls, Apart base c.key) :
    KeepsVersions base k ((performAll base calls d).2.foldl (keep fun c => c.key = k) states)
      (performAll base calls d).1 := by
  induction calls generalizing d states with
  | nil => exact hv
  | cons c calls ih =>
    have hc := hcalls c List.mem_cons_self
    have hopen := hp.of_within hc (within_perform hp hc rfl)
    exact ih (hv.perform hp hc rfl) hopen fun c hc => hcalls c (List.mem_cons_of_mem _ hc)

theorem keepsCurrent_performAll (hcurrent : KeepsCurrent base k states d) (hp : Open base d)
    (hcalls : ∀ c ∈ calls, Apart base c.key)
    (hsaved : ∀ c e, (c, .unsaved e) ∈ (performAll base calls d).2 → c.key ≠ k) :
    KeepsCurrent base k ((performAll base calls d).2.foldl (keep fun c => c.key = k) states)
      (performAll base calls d).1 := by
  induction calls generalizing d states with
  | nil => exact hcurrent
  | cons c calls ih =>
    have hc := hcalls c List.mem_cons_self
    have hopen := hp.of_within hc (within_perform hp hc rfl)
    have hfirst : ∀ e, (c.perform base d).2 = .unsaved e → c.key ≠ k := by
      intro e he
      refine hsaved c e ?_
      rw [← he]
      exact List.mem_cons_self
    refine ih (hcurrent.perform hp hc rfl hfirst) hopen
      (fun c hc => hcalls c (List.mem_cons_of_mem _ hc)) fun c e hmem => ?_
    exact hsaved c e (List.mem_cons_of_mem _ hmem)

theorem map_performAll (base : Path) (calls : List Call) (d : Disk) :
    (performAll base calls d).2.map Prod.fst = calls := by
  induction calls generalizing d with
  | nil => rfl
  | cons c calls ih => simp [performAll, ih]

theorem kept_congr {about about' : Call → Bool} {events : List (Call × Outcome)}
    (h : ∀ c ∈ events.map Prod.fst, about c = about' c) : kept about events = kept about' events := by
  have hkeep : ∀ states, ∀ event ∈ events, keep about states event = keep about' states event := by
    rintro states ⟨c, outcome⟩ hmem
    have hc := h c (List.mem_map_of_mem hmem)
    cases c <;> cases outcome <;> simp [keep, hc]
  exact List.foldl_ext _ _ _ hkeep

section
variable {identifier : String} (hcreate : (create base d).2 = .ok ())
  (hcalls : ∀ c ∈ calls, Apart base c.key) (hkey : Apart base (key identifier))
include hcreate hcalls hkey

theorem load_version
    (h : (n, b) ∈ kept (fun c => c.key = key identifier)
      (performAll base calls (create base d).1).2) :
    load base identifier (some n) (performAll base calls (create base d).1).1 =
      .ok (some b.quiet.draft) := by
  have hopen : Open base (create base d).1 := open_of_makeAll (Prod.ext rfl hcreate)
  have hnone : KeepsVersions base (key identifier) [] (create base d).1 := by simp [KeepsVersions]
  have hstored := keepsVersions_performAll hnone hopen hcalls n b h
  unfold load versionFile directory
  exact loadFile_of_stored (open_performAll hopen hcalls) hkey.isName (isName_versionName n) hstored

theorem load_current
    (hsaved : ∀ c e, (c, .unsaved e) ∈ (performAll base calls (create base d).1).2 →
      c.key ≠ key identifier)
    (h : (kept (fun c => c.key = key identifier)
      (performAll base calls (create base d).1).2).getLast? = some (n, b)) :
    load base identifier none (performAll base calls (create base d).1).1 =
      .ok (some b.quiet.draft) := by
  have hopen : Open base (create base d).1 := open_of_makeAll (Prod.ext rfl hcreate)
  have hnone : KeepsCurrent base (key identifier) [] (create base d).1 := by simp [KeepsCurrent]
  have hstored := keepsCurrent_performAll hnone hopen hcalls hsaved n b h
  unfold load currentFile directory
  exact loadFile_of_stored (open_performAll hopen hcalls) hkey.isName isName_current hstored

end

theorem kept_identifier_eq {identifier : String}
    (h : ∀ c ∈ calls, c.key = key identifier → c.identifier = identifier) :
    kept (fun c => c.identifier = identifier) (performAll base calls d).2 =
      kept (fun c => c.key = key identifier) (performAll base calls d).2 := by
  refine kept_congr fun c hc => ?_
  rw [map_performAll] at hc
  have hback : c.identifier = identifier → c.key = key identifier := congrArg key
  exact decide_eq_decide.mpr ⟨hback, h c hc⟩

/-- The store keeps the states that were saved under a key since the last deletion, each as its
version and the last one as the current state. What an identifier gives are therefore the states
saved for it, provided that no other identifier in use has its key. -/
theorem load_kept_by_key {identifier : String} (hcreate : (create base d).2 = .ok ())
    (hcalls : ∀ c ∈ calls, Apart base c.key) (hkey : Apart base (key identifier)) :
    let run := performAll base calls (create base d).1
    let states := kept (fun c => c.key = key identifier) run.2
    (∀ n b, (n, b) ∈ states → load base identifier (some n) run.1 = .ok (some b.quiet.draft)) ∧
    ((∀ c e, (c, .unsaved e) ∈ run.2 → c.key ≠ key identifier) →
      ∀ n b, states.getLast? = some (n, b) →
        load base identifier none run.1 = .ok (some b.quiet.draft)) ∧
    ((∀ c ∈ calls, c.key = key identifier → c.identifier = identifier) →
      kept (fun c => c.identifier = identifier) run.2 = states) := by
  intro run states
  refine ⟨fun n b hmem => ?_, fun hsaved n b hlast => ?_, fun halone => ?_⟩
  · exact load_version hcreate hcalls hkey hmem
  · exact load_current hcreate hcalls hkey hsaved hlast
  · exact kept_identifier_eq halone

def blueprints : Path := .ofText "blueprints"

theorem create_blueprints : (create blueprints .empty).2 = .ok () := by rfl

/-- A blueprint with nothing in it, after `count` changes. -/
def bare (name path : String) (count : Int) : Blueprint :=
  ⟨0, name, path, none, [], [], true, count⟩

def doorAndGate : List Call :=
  [.save "" (bare "Door" "/Game/Door" 1), .save "" (bare "Gate" "/Game/Gate" 1),
    .save "" (bare "Door" "/Game/Door" 2), .delete "/Game/Gate"]

theorem load_kept_by_key_doorAndGate :
    let run := performAll blueprints doorAndGate (create blueprints .empty).1
    (create blueprints .empty).2 = .ok () ∧
    (∀ c ∈ doorAndGate, Apart blueprints c.key) ∧ Apart blueprints (key "/Game/Door") ∧
    kept (fun c => c.identifier = "/Game/Door") run.2 =
      [(1, bare "Door" "/Game/Door" 1), (2, bare "Door" "/Game/Door" 2)] ∧
    load blueprints "/Game/Door" (some 1) run.1 = .ok (some (bare "Door" "/Game/Door" 1).draft) ∧
    load blueprints "/Game/Door" none run.1 = .ok (some (bare "Door" "/Game/Door" 2).draft) := by
  intro run
  have hcreate := create_blueprints
  have hcalls : ∀ c ∈ doorAndGate, Apart blueprints c.key := by decide +kernel
  have hkey : Apart blueprints (key "/Game/Door") :=
    apart_key (by decide +kernel) (by decide +kernel) (by decide +kernel)
  have halone : ∀ c ∈ doorAndGate, c.key = key "/Game/Door" → c.identifier = "/Game/Door" := by
    decide +kernel
  have hevents : run.2 = doorAndGate.zip [.saved 1, .saved 1, .saved 2, .deleted] := by
    decide +kernel
  have hkept : kept (fun c => c.identifier = "/Game/Door") run.2 =
      [(1, bare "Door" "/Game/Door" 1), (2, bare "Door" "/Game/Door" 2)] := by
    rw [hevents]
    decide +kernel
  obtain ⟨hversions, hcurrent, hsame⟩ := load_kept_by_key hcreate hcalls hkey
  have hstates := (hsame halone).symm.trans hkept
  refine ⟨hcreate, hcalls, hkey, hkept, ?_, ?_⟩
  · exact hversions 1 (bare "Door" "/Game/Door" 1) (by rw [hstates]; simp)
  · refine hcurrent (fun c e hmem => ?_) 2 (bare "Door" "/Game/Door" 2) (by rw [hstates]; rfl)
    have hsaved : (c, .unsaved e) ∉ run.2 := by simp [hevents, doorAndGate]
    exact absurd hmem hsaved

def twoDoors : List Call :=
  [.save "" (bare "First" "/Game/Door A" 0), .save "" (bare "Second" "/Game/Door_A" 0)]

/-- Two different paths with one key: the store gives the one blueprint for the other. -/
theorem load_gives_other_blueprint :
    let run := performAll blueprints twoDoors (create blueprints .empty).1
    run.2 = twoDoors.zip [.saved 1, .saved 2] ∧
    load blueprints "/Game/Door A" none run.1 =
      .ok (some (bare "Second" "/Game/Door_A" 0).draft) ∧
    (bare "Second" "/Game/Door_A" 0).draft ≠ (bare "First" "/Game/Door A" 0).draft := by
  intro run
  have hcalls : ∀ c ∈ twoDoors, Apart blueprints c.key := by decide +kernel
  have hkey : Apart blueprints (key "/Game/Door A") := by decide +kernel
  have hevents : run.2 = twoDoors.zip [.saved 1, .saved 2] := by decide +kernel
  have hlast : (kept (fun c => c.key = key "/Game/Door A") run.2).getLast? =
      some (2, bare "Second" "/Game/Door_A" 0) := by
    rw [hevents]
    decide +kernel
  have hsaved : ∀ c e, (c, .unsaved e) ∈ run.2 → c.key ≠ key "/Game/Door A" := by
    simp [hevents, twoDoors]
  refine ⟨hevents, ?_, by decide⟩
  exact load_current create_blueprints hcalls hkey hsaved hlast

end BlueprintPatch.Store

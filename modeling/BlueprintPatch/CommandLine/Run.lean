import BlueprintPatch.CommandLine.Arguments
import BlueprintPatch.Context.Export
import BlueprintPatch.Context.Import
import BlueprintPatch.Patch.Engine
import BlueprintPatch.Settings
import BlueprintPatch.Store.Store
import BlueprintPatch.Text.Uppercase

/-! A run of the command: blueprints are loaded, the patch is applied to them, and those that it
has modified are saved and exported. Faults of the patch and of the blueprints are reported and
end the run with a failure; a fault of the surroundings aborts it. -/
namespace BlueprintPatch.CommandLine

/-- What aborts a run. -/
inductive Abort
  | settings (e : SettingsError)
  | level (name : String)
  | undecodable (fault : Utf8.Fault)
  | disk (e : DiskError)
  | store (e : StoreError)
  /-- An export is given without a text. -/
  | unnamedExport
  | blueprint (e : ImportFileError)
  | engine (c : Crash)
deriving DecidableEq, Repr

def Abort.message : Abort → String
  | .settings e => e.message
  | .level name => "Unknown level: " ++ Text.quoted name
  | .undecodable fault => fault.message
  | .disk e => e.message
  | .store e => e.message
  | .unnamedExport => "expected str, bytes or os.PathLike object, not list"
  | .blueprint e => e.message
  | .engine c => c.message

/-- How a run ends before its last line. -/
inductive Ending
  | exit (code : Nat)
  | abort (a : Abort)
deriving DecidableEq, Repr

/-- What a run finds. -/
structure Surroundings where
  environment : Environment
  input : Content
  disk : Disk
  /-- The text of the time of the run. -/
  time : String
  /-- The first number of the supply of ids. -/
  seed : Nat

/-- What a run has done so far. -/
structure Progress where
  disk : Disk
  output : String

abbrev Step := ExceptT Ending (StateM Progress)

def say (line : String) : Step Unit := modify fun p => { p with output := p.output ++ line ++ "\n" }

/-- Says why the run fails, and ends it. -/
def giveUp {α : Type} (line : String) : Step α := do
  say line
  throw (.exit 1)

def aborting {ε α : Type} (describe : ε → Abort) : Except ε α → Step α
  | .ok a => return a
  | .error e => throw (.abort (describe e))

def currentDisk : Step Disk := do return (← get).disk

def setDisk (disk : Disk) : Step Unit := modify fun p => { p with disk := disk }

/-- The names of the levels of the log. -/
def levels : List String :=
  ["CRITICAL", "FATAL", "ERROR", "WARN", "WARNING", "INFO", "DEBUG", "NOTSET"]

def checkLevel (s : Settings) : Except Abort Unit :=
  let name := Text.upper s.logLevel
  if name ∈ levels then .ok () else .error (.level name)

/-- The text of the patch; a dash stands for the input. -/
def readPatch (s : Surroundings) (name : String) : Step String := do
  match if name = "-" then Disk.textOf s.input else s.disk.read (Path.ofText name) with
  | .ok text => return text
  | .error (.disk e) =>
    if e.isRefusal then giveUp ("[ERROR] Cannot read patch: " ++ e.message)
    else throw (.abort (.disk e))
  | .error (.undecodable fault) => throw (.abort (.undecodable fault))

def cannotLoad {α : Type} (reason : String) : Step α :=
  giveUp ("[ERROR] Cannot load blueprints: " ++ reason)

/-- Whether the fault lies in how the file is written. Values of types that cannot be taken for
what is wanted, and too deep nesting, are no such faults. -/
def isReported : ImportFileError → Bool
  | .file (.json _ (.tooDeep _)) => false
  | .file _ => true
  | .context .noName => true
  | .context (.coercion (.badNumberText _)) => true
  | .context (.coercion _) => false
  | .context (.rejected _) => true

def openStore (directory : String) : Step Path := do
  let base := Path.ofText directory
  let (disk, result) := Store.create base (← currentDisk)
  setDisk disk
  aborting .disk result
  return base

def loadStore (base : Path) : Step (List BlueprintDraft) := do
  match Store.listAll base (← currentDisk) with
  | .ok drafts => return drafts
  | .error (.tooDeep e) => throw (.abort (.store (.tooDeep e)))
  | .error e => cannotLoad e.message

def loadExport : Option String → Step (List BlueprintDraft)
  | none => throw (.abort .unnamedExport)
  | some name => do
    match (← currentDisk).importFile (Path.verbatim name) with
    | .ok drafts => return drafts
    | .error e => if isReported e then cannotLoad e.message else throw (.abort (.blueprint e))

/-- The model of the blueprints of the store, followed by those of the exports. -/
def loadModel (store : Option Path) (exports : List (Option String)) (seed : Nat) :
    Step Model := do
  let stored ← match store with
    | some base => loadStore base
    | none => pure []
  let exported ← exports.mapM loadExport
  return ({ Model.empty with next := seed } : Model).loadAll (stored ++ exported.flatten)

/-- Keeps the notifications of reports. -/
def notify : Sink (List Notification) := fun report e notes =>
  (e, notes ++ report.notifications, none)

def failedLine (e : PatchError) : String := "[FAILED] " ++ e.code.name ++ ": " ++ e.message

/-- Whether the blueprint has been modified since the model was as given. -/
def isModifiedSince (m : Model) (b : Blueprint) : Bool :=
  match m.loaded.find? (·.handle = b.handle) with
  | some old => b.modificationCount != old.modificationCount
  | none => true

def saveBlueprint (base : Path) (time : String) (b : Blueprint) : Step Unit := do
  let (disk, result) := Store.save base time b (← currentDisk)
  setDisk disk
  let version ← aborting .store result
  say ("  Saved " ++ b.name ++ " (v" ++ toString version ++ ")")

def exportBlueprint (directory : String) (time : String) (b : Blueprint) : Step Unit := do
  let target := (Path.ofText directory).join (b.name ++ ".json")
  let (disk, result) := Context.exportFile time b target (← currentDisk)
  setDisk disk
  match result with
  | .ok () => say ("  Exported " ++ b.name ++ " -> " ++ target.shown)
  | .error e => if !e.isRefusal then throw (.abort (.disk e))

def deliver (store : Option Path) (exportDir : Option String) (time : String) (b : Blueprint) :
    Step Unit := do
  if let some base := store then saveBlueprint base time b
  if let some directory := exportDir then exportBlueprint directory time b

def dryRun (text : Json) (e : Engine) : Step Nat := do
  match (e.canApply text).2.error with
  | some error => giveUp (failedLine error)
  | none => do
    say "[OK] Patch can be applied"
    return 0

/-- Applies the patch and says what there is to notify. -/
def applyPatch (text : Json) (e : Engine) : Step (Engine × Outcome) := do
  let (e, notes, result) := e.apply notify text []
  let outcome ← aborting .engine result
  notes.forM fun n => say ("[" ++ n.severity.name ++ "] " ++ n.message)
  match outcome.error with
  | some error => giveUp (failedLine error)
  | none => return (e, outcome)

def carryOut (s : Surroundings) (i : Invocation) : Step Nat := do
  let settings ← aborting .settings (Settings.load i.config s.environment s.disk)
  aborting id (checkLevel settings)
  let text := Json.str (← readPatch s i.patch)
  let store ← i.store.mapM openStore
  let model ← loadModel store i.blueprints s.seed
  say ("Loaded " ++ toString model.loaded.length ++ " blueprint(s)")
  let engine := Engine.new model settings.undoDepth settings.transactionLabel
  if i.dryRun then dryRun text engine
  else do
    let (engine, outcome) ← applyPatch text engine
    (engine.model.loaded.filter (isModifiedSince model)).forM
      (deliver store i.exportDir s.time)
    say ("[OK] Applied " ++ toString outcome.applied ++ " operation(s)")
    return 0

/-- The result of a run: the disk and the output that it leaves, and the exit code unless it was
aborted. -/
structure Result where
  disk : Disk
  output : String
  exit : Except Abort Nat

def run (s : Surroundings) (arguments : List String) : Result :=
  match interpret arguments with
  | .error .helpWanted => ⟨s.disk, help, .ok 0⟩
  | .error .misused => ⟨s.disk, "", .ok 2⟩
  | .ok invocation =>
    let (result, p) := StateT.run (ExceptT.run (carryOut s invocation)) ⟨s.disk, ""⟩
    match result with
    | .ok code => ⟨p.disk, p.output, .ok code⟩
    | .error (.exit code) => ⟨p.disk, p.output, .ok code⟩
    | .error (.abort a) => ⟨p.disk, p.output, .error a⟩

end BlueprintPatch.CommandLine

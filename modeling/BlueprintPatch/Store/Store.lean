import BlueprintPatch.Disk.JsonFile
import BlueprintPatch.Graph.Draft
import BlueprintPatch.Json.Writer
import BlueprintPatch.Store.Key
import BlueprintPatch.Store.Record

/-! The store: a directory that keeps every saved version of each blueprint. The directory of a
key holds the versions, the current state and an index. -/
namespace BlueprintPatch

/-- Why a file of the store gives no blueprint. -/
inductive StoreCause
  | file (e : FileError)
  | draft (e : DraftError)
deriving DecidableEq, Repr

def StoreCause.message : StoreCause → String
  | .file e => e.message
  | .draft e => e.message

inductive StoreError
  /-- The disk refuses what prepares for reading or writing. -/
  | disk (e : DiskError)
  | unsaved (name : String) (e : DiskError)
  /-- A count has too many digits to be written. -/
  | oversizedInteger
  | unreadable (file : String) (cause : StoreCause)
  /-- A file nests too deep to be decoded. -/
  | tooDeep (file : FileError)
deriving DecidableEq, Repr

def StoreError.message : StoreError → String
  | .disk e => e.message
  | .unsaved name e => "Could not save blueprint '" ++ name ++ "': " ++ e.message
  | .oversizedInteger => Json.oversizedText ""
  | .unreadable file cause => "Could not read " ++ file ++ ": " ++ cause.message
  | .tooDeep e => e.message

namespace Store

def directory (base : Path) (key : String) : Path := base.join key

def versionFile (base : Path) (key : String) (version : Int) : Path :=
  (directory base key).join ("v" ++ toString version ++ ".json")

def currentFile (base : Path) (key : String) : Path := (directory base key).join "current.json"

def indexFile (base : Path) (key : String) : Path := (directory base key).join "index.json"

def keyFor (b : Blueprint) : String := key (if b.path = "" then b.name else b.path)

/-- Makes the directory of the store. -/
def create (base : Path) (d : Disk) : Disk × Except DiskError Unit := d.makeAll base

def readDraft (p : Path) (d : Disk) : Except StoreError BlueprintDraft :=
  match d.readJson p with
  | .error (.json text (.tooDeep c)) => .error (.tooDeep (.json text (.tooDeep c)))
  | .error e => .error (.unreadable p.shown (.file e))
  | .ok v =>
    match BlueprintDraft.ofValue v with
    | .ok b => .ok b
    | .error e => .error (.unreadable p.shown (.draft e))

/-- The blueprint in a file; none if there is no such file. -/
def loadFile (p : Path) (d : Disk) : Except StoreError (Option BlueprintDraft) :=
  match d.has p with
  | .error e => .error (.disk e)
  | .ok false => .ok none
  | .ok true => (readDraft p d).map some

/-- The current state of a blueprint, or one of its versions. -/
def load (base : Path) (identifier : String) (version : Option Int) (d : Disk) :
    Except StoreError (Option BlueprintDraft) :=
  match version with
  | none => loadFile (currentFile base (key identifier)) d
  | some v => loadFile (versionFile base (key identifier) v) d

/-- The number in the name of a version file. -/
def versionOf? (name : String) : Option Int :=
  match name.toList with
  | 'v' :: rest =>
    if ".json".toList.isSuffixOf rest then
      Numeral.integer? Text.decimalDigit? (String.ofList (rest.take (rest.length - 5)))
    else none
  | _ => none

/-- The versions of a blueprint in order; a number that two names write stands twice. -/
def history (base : Path) (identifier : String) (d : Disk) : Except StoreError (List Int) :=
  let p := directory base (key identifier)
  match d.hasDirectory p with
  | .error e => .error (.disk e)
  | .ok false => .ok []
  | .ok true =>
    match d.list p with
    | .error e => .error (.disk e)
    | .ok names => .ok ((names.filterMap versionOf?).mergeSort (· ≤ ·))

/-- The current state in the directory called `name`, if there is one that can be read. -/
def currentIn (base : Path) (name : String) (d : Disk) : Except StoreError (List BlueprintDraft) :=
  match d.hasDirectory (directory base name), d.has (currentFile base name) with
  | .error e, _ => .error (.disk e)
  | .ok true, .error e => .error (.disk e)
  | .ok true, .ok true =>
    match load base name none d with
    | .ok b => .ok b.toList
    | .error (.unreadable _ _) => .ok []
    | .error e => .error e
  | _, _ => .ok []

/-- The current states of all blueprints, in the order of the names of their directories. -/
def listAll (base : Path) (d : Disk) : Except StoreError (List BlueprintDraft) :=
  match d.list base with
  | .error e => .error (.disk e)
  | .ok names => do
    let found ← (names.mergeSort fun a b => !decide (b < a)).mapM (currentIn base · d)
    .ok found.flatten

def index (time : String) (key : String) (b : Blueprint) (version : Int) : Json :=
  .obj [("key", .str key), ("name", .str b.name), ("path", .str b.path), ("version", .int version),
    ("variable_count", .int b.members.length), ("graph_count", .int b.graphs.length),
    ("node_count", .int b.allNodes.length), ("saved_at", .str time)]

/-- Writes the files in turn, up to the first that cannot be written in full. -/
def writeAll : List (Path × Json) → Disk → Disk × Except FileWriteError Unit
  | [], d => (d, .ok ())
  | (p, v) :: rest, d =>
    match d.writeJson p v with
    | (d, .error e) => (d, .error e)
    | (d, .ok ()) => writeAll rest d

/-- The number of the next version. -/
def nextVersion (versions : List Int) : Int :=
  match versions.getLast? with
  | some v => v + 1
  | none => 1

/-- Saves a blueprint as a new version, and says which. What has been written stays when a later
file cannot be. -/
def save (base : Path) (time : String) (b : Blueprint) (d : Disk) :
    Disk × Except StoreError Int :=
  let k := keyFor b
  match history base k d with
  | .error e => (d, .error e)
  | .ok versions =>
    let version := nextVersion versions
    match d.makeAll (directory base k) with
    | (d, .error e) => (d, .error (.disk e))
    | (d, .ok ()) =>
      match writeAll [(versionFile base k version, b.record), (currentFile base k, b.record),
        (indexFile base k, index time k b version)] d with
      | (d, .error (.disk e)) => (d, .error (.unsaved b.name e))
      | (d, .error .oversizedInteger) => (d, .error .oversizedInteger)
      | (d, .ok ()) => (d, .ok version)

/-- Deletes a blueprint with all its versions, and says whether there was one. -/
def delete (base : Path) (identifier : String) (d : Disk) : Except StoreError (Disk × Bool) :=
  let p := directory base (key identifier)
  match d.has p with
  | .error e => .error (.disk e)
  | .ok false => .ok (d, false)
  | .ok true =>
    match d.removeAll p with
    | .error e => .error (.disk e)
    | .ok d => .ok (d, true)

end Store

end BlueprintPatch

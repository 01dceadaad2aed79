import BlueprintPatch.CommandLine.Run
import Std.Time.Format

/-! The program: it looks up what the command may read, carries the command out, and makes the
changes on the disk. -/
namespace BlueprintPatch.Main

/-- Adds the file or directory at a place. -/
def addItem (place : List String) (d : Disk) : IO Disk := do
  let path := (← IO.currentDir) / Path.render place
  if ← path.isDir then return d.put place .directory
  else if ← path.pathExists then
    return d.put place (.file (Content.ofBytes (← IO.FS.readBinFile path).toList))
  else return d

/-- Adds what stands at a path and on the way to it. -/
def addPath (p : Path) (d : Disk) : IO Disk := do
  let places := (List.range p.parts.length).map fun i => p.parts.take (i + 1)
  places.foldlM (fun d place => addItem place d) d

/-- Adds everything below a directory. -/
partial def addTree (place : List String) (d : Disk) : IO Disk := do
  let d ← addItem place d
  let path := (← IO.currentDir) / Path.render place
  if ← path.isDir then
    (← path.readDir).foldlM (fun d entry => addTree (place ++ [entry.fileName]) d) d
  else return d

/-- The part of the disk that the command may look at. -/
def gather (env : Environment) (i : CommandLine.Invocation) : IO Disk := do
  let files := [Settings.pathFor i.config env, Path.ofText i.patch]
    ++ (i.blueprints.filterMap id).map Path.verbatim
  let d ← files.foldlM (fun d p => addPath p d) Disk.empty
  [i.store, i.exportDir].foldlM (fun d name => do
    match name with
    | none => return d
    | some s => addTree (Path.ofText s).parts (← addPath (Path.ofText s) d)) d

/-- Writes what is new or changed. -/
def store (before after : Disk) : IO Unit :=
  after.items.forM fun (place, item) => do
    let path := (← IO.currentDir) / Path.render place
    if before.item? place ≠ some item then
      match item with
      | .directory => IO.FS.createDirAll path
      | .file (.text s) => IO.FS.writeFile path s
      | .file (.broken _ _) => pure ()

def environment : IO Environment := do
  let names := ["USERPROFILE", "HOME"] ++ Settings.overrides.map (·.1)
  names.filterMapM fun name => do return (← IO.getEnv name).map fun s => (name, s)

def input (i : CommandLine.Invocation) : IO Content := do
  if i.patch = "-" then return Content.ofBytes (← (← IO.getStdin).readBinToEnd).toList
  else return .text ""

def time : IO String := do
  return (Std.Time.DateTime.ofTimestamp (← Std.Time.Timestamp.now) .UTC).toISO8601String

def run (arguments : List String) : IO UInt32 := do
  let env ← environment
  let invocation := CommandLine.interpret arguments
  let disk ← match invocation with
    | .ok i => gather env i
    | .error _ => pure Disk.empty
  let text ← match invocation with
    | .ok i => input i
    | .error _ => pure (.text "")
  let seed ← IO.rand 0 (pow2 62)
  let result := CommandLine.run ⟨env, text, disk, ← time, seed * pow2 32⟩ arguments
  store disk result.disk
  IO.print result.output
  match result.exit with
  | .ok 2 => do
    IO.eprint CommandLine.usage
    return 2
  | .ok code => return code.toUInt32
  | .error a => do
    IO.eprintln a.message
    return 1

end BlueprintPatch.Main

def main (arguments : List String) : IO UInt32 := BlueprintPatch.Main.run arguments

import BlueprintPatch.Disk.Disk
import BlueprintPatch.Json.Reader
import BlueprintPatch.Json.Writer

/-! JSON documents in files. -/
namespace BlueprintPatch

/-- Why a file gives no JSON value. -/
inductive FileError
  | disk (e : DiskError)
  | undecodable (fault : Utf8.Fault)
  | json (text : String) (fault : Json.Fault)
deriving DecidableEq, Repr

def FileError.message : FileError → String
  | .disk e => e.message
  | .undecodable fault => fault.message
  | .json text fault => fault.message text.toList

def Disk.readJson (p : Path) (d : Disk) : Except FileError Json :=
  match d.read p with
  | .error (.disk e) => .error (.disk e)
  | .error (.undecodable fault) => .error (.undecodable fault)
  | .ok text =>
    match Json.read text with
    | .ok v => .ok v
    | .error fault => .error (.json text fault)

/-- Why a JSON value is not in a file. -/
inductive FileWriteError
  | disk (e : DiskError)
  | oversizedInteger
deriving DecidableEq, Repr

/-- Writes a value into a file, where the text ends in front of an integer with too many digits. -/
def Disk.writeJson (p : Path) (v : Json) (d : Disk) : Disk × Except FileWriteError Unit :=
  match d.write p (v.writeFront .spread) with
  | .error e => (d, .error (.disk e))
  | .ok d => (d, if v.isWritable .spread then .ok () else .error .oversizedInteger)

end BlueprintPatch

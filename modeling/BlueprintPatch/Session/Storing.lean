import BlueprintPatch.Session.Desk

/-! Actions on the store of a session, whose directory is made when it is first used. -/
namespace BlueprintPatch.Session.Action

def storeBase : Path := Path.ofText "store"

/-- Makes the directory of the store, unless that has been done. -/
def openStore : Action Disk := do
  let d ← desk
  if d.opened then return d.disk
  let (disk, result) := Store.create storeBase d.disk
  changeDesk fun d => { d with disk := disk }
  ofExcept .disk result
  changeDesk fun d => { d with opened := true }
  return disk

def setDisk (disk : Disk) : Action Unit := changeDesk fun d => { d with disk := disk }

def save (time : String) (r : Reference) : Action Answer := do
  let disk ← openStore
  let b ← blueprintAt r
  let (disk, result) := Store.save storeBase time b disk
  setDisk disk
  return .saved (Store.keyFor b) (← ofExcept .store result)

/-- Makes the blueprint of a draft and loads it if `loads` says so. -/
def make (loads : Bool) (draft : BlueprintDraft) : Action Blueprint := do
  let (b, m) := (← model).make draft
  setModel (if loads then m.add b else m)
  return b

def loadStored (key : String) (version : Option Int) (loads : Bool) : Action Answer := do
  let disk ← openStore
  match ← ofExcept .store (Store.load storeBase key version disk) with
  | none => return .blueprint none
  | some draft => return .blueprint (some (← make loads draft))

def delete (key : String) : Action Answer := do
  let disk ← openStore
  let (disk, found) ← ofExcept .store (Store.delete storeBase key disk)
  setDisk disk
  return .truth found

def history (key : String) : Action Answer := do
  let disk ← openStore
  return .versions (← ofExcept .store (Store.history storeBase key disk))

/-- The current states in the store, which are loaded if `loads` says so. -/
def listStore (loads : Bool) : Action Answer := do
  let disk ← openStore
  let drafts ← ofExcept .store (Store.listAll storeBase disk)
  if loads then changeModel (·.loadAll drafts)
  return .identities (drafts.map fun b => (b.name, b.path))

/-- Puts an item below the directory of the store, and the directories above it. -/
def write (p : Path) (item : DiskItem) : Action Answer := do
  changeDesk fun d => { d with disk := d.disk.place (storeBase.parts ++ p.parts) item }
  return .nothing

/-- The files below the directory of the store. -/
def tree : Action Answer := do
  let below := (← desk).disk.items.filter fun i =>
    storeBase.parts.isPrefixOf i.1 && i.1 ≠ storeBase.parts
  return .files (below.filterMap fun i =>
    match i.2 with
    | .file c => some (Path.render i.1, c)
    | .directory => none)

end BlueprintPatch.Session.Action

import BlueprintPatch.Disk.Path
import BlueprintPatch.Text.Lines
import BlueprintPatch.Text.Quoted
import BlueprintPatch.Text.Utf8

/-! The disk below the working directory: which files and directories there are and what the files
hold. -/
namespace BlueprintPatch

/-- A text, or bytes that are no text, with the fault that shows it. -/
inductive Content
  | text (s : String)
  | broken (bytes : List UInt8) (fault : Utf8.Fault)
deriving DecidableEq, Repr

def Content.ofBytes (bytes : List UInt8) : Content :=
  match Utf8.decode bytes with
  | .ok cs => .text (String.ofList cs)
  | .error fault => .broken bytes fault

inductive DiskErrorKind
  | notFound
  | occupied
  | notDirectory
  | isDirectory
  | nameTooLong
deriving DecidableEq, Repr

def DiskErrorKind.text : DiskErrorKind → String
  | .notFound => "[Errno 2] No such file or directory"
  | .occupied => "[Errno 17] File exists"
  | .notDirectory => "[Errno 20] Not a directory"
  | .isDirectory => "[Errno 21] Is a directory"
  | .nameTooLong => "[Errno 36] File name too long"

inductive DiskError
  /-- The disk refuses; `place` is the place as messages write it. -/
  | refused (kind : DiskErrorKind) (place : String)
  /-- The path holds the character zero, which ends names. -/
  | nullInPath
  /-- More directories are missing than can be made in one go. -/
  | tooDeep
deriving DecidableEq, Repr

namespace DiskError

def message : DiskError → String
  | .refused kind place => kind.text ++ ": " ++ place
  | .nullInPath => "embedded null byte"
  | .tooDeep => "maximum recursion depth exceeded while calling a Python object"

/-- Whether the disk itself refuses; otherwise it is not even asked. -/
def isRefusal : DiskError → Bool
  | .refused _ _ => true
  | _ => false

end DiskError

inductive DiskItem
  | file (c : Content)
  | directory
deriving DecidableEq, Repr

/-- The items by the names that lead to them; the working directory itself is not among them. -/
structure Disk where
  items : List (List String × DiskItem)
deriving Repr

namespace Disk

def empty : Disk := ⟨[]⟩

/-- Whether the names lead to a directory without being looked up: the working directory, one
above it, or the root. -/
def isBase (place : List String) : Bool := place.all (· = "..") || Path.roots.any (place = [·])

def item? (place : List String) (d : Disk) : Option DiskItem :=
  if isBase place then some .directory else d.items.lookup place

/-- The disk with the item at that place, which comes last if it is new. -/
def put (place : List String) (item : DiskItem) (d : Disk) : Disk :=
  if (d.items.lookup place).isSome then
    ⟨d.items.map fun p => if p.1 = place then (place, item) else p⟩
  else ⟨d.items ++ [(place, item)]⟩

/-- The disk with the item at that place and with directories on the way to it. -/
def place (names : List String) (item : DiskItem) (d : Disk) : Disk :=
  let way := (List.range (names.length - 1)).map fun i => names.take (i + 1)
  (way.foldl (fun d above => if (d.item? above).isSome then d else d.put above .directory) d).put
    names item

/-- The most bytes that a name may have. -/
def maxNameBytes : Nat := 255

/-- The most bytes that the text of a path may have. -/
def maxPathBytes : Nat := 4095

/-- The place of a name in the directory `here`. Above the working directory `..` is a name like
any other. -/
def enter (here : List String) (name : String) : Except DiskErrorKind (List String) :=
  if maxNameBytes < name.utf8ByteSize then .error .nameTooLong
  else if name = "." then .ok here
  else if name = ".." ∧ here.getLast?.any (· ∉ ".." :: Path.roots) then .ok here.dropLast
  else .ok (here ++ [name])

/-- Follows the names from the directory `here`; the last one need not exist. -/
def follow (d : Disk) : List String → List String → Except DiskErrorKind (List String)
  | here, [] => .ok here
  | here, name :: rest =>
    match d.item? here with
    | none => .error .notFound
    | some (.file _) => .error .notDirectory
    | some .directory =>
      match enter here name with
      | .error kind => .error kind
      | .ok place => follow d place rest

def failAt {α : Type} (p : Path) (kind : DiskErrorKind) : Except DiskError α :=
  .error (.refused kind (Text.quoted p.shown))

/-- Where a path leads. -/
def locate (p : Path) (d : Disk) : Except DiskError (List String) :=
  if '\x00' ∈ p.shown.toList then .error .nullInPath
  else if maxPathBytes < p.shown.utf8ByteSize then failAt p .nameTooLong
  else match d.follow [] p.parts with
    | .ok place => .ok place
    | .error kind => failAt p kind

/-- What stands at a path, if anything does. Only a name that is too long is an error. -/
def lookup (p : Path) (d : Disk) : Except DiskError (Option DiskItem) :=
  match d.locate p with
  | .ok place => .ok (d.item? place)
  | .error (.refused .nameTooLong place) => .error (.refused .nameTooLong place)
  | .error _ => .ok none

def has (p : Path) (d : Disk) : Except DiskError Bool := (d.lookup p).map Option.isSome

def hasDirectory (p : Path) (d : Disk) : Except DiskError Bool :=
  (d.lookup p).map (· = some .directory)

def readContent (p : Path) (d : Disk) : Except DiskError Content := do
  match d.item? (← d.locate p) with
  | none => failAt p .notFound
  | some .directory => failAt p .isDirectory
  | some (.file c) => .ok c

/-- Why a file gives no text. -/
inductive ReadError
  | disk (e : DiskError)
  | undecodable (fault : Utf8.Fault)
deriving DecidableEq, Repr

/-- The text of a content, every line ended in the same way. -/
def textOf : Content → Except ReadError String
  | .text s => .ok (String.ofList (Text.unifyLineEnds s.toList))
  | .broken _ fault => .error (.undecodable fault)

def read (p : Path) (d : Disk) : Except ReadError String :=
  match d.readContent p with
  | .error e => .error (.disk e)
  | .ok c => textOf c

/-- Writes a file into a directory that exists. -/
def write (p : Path) (text : String) (d : Disk) : Except DiskError Disk := do
  let place ← d.locate p
  match d.item? place with
  | some .directory => failAt p .isDirectory
  | _ => .ok (d.put place (.file (.text text)))

/-- How many of the names lead from the directory `here` to nothing. -/
def missing (d : Disk) : List String → List String → Nat
  | _, [] => 0
  | here, name :: rest =>
    match enter here name with
    | .error _ => rest.length + 1
    | .ok place => if (d.item? place).isSome then missing d place rest else rest.length + 1

/-- The most directories that can be made in one go. -/
def maxMissing : Nat := 987

/-- Makes the directories `names`, each in the one before it and the first one in `here`, to which
the names `way` lead. Those made stay when a later one cannot be. -/
def makeEach (way here : List String) : List String → Disk → Disk × Except DiskError Unit
  | [], d => (d, .ok ())
  | name :: rest, d =>
    let way := way ++ [name]
    match enter here name with
    | .error kind => (d, failAt (Path.ofParts way) kind)
    | .ok place =>
      match d.item? place with
      | some .directory => makeEach way place rest d
      | some (.file _) => (d, failAt (Path.ofParts way) .occupied)
      | none => makeEach way place rest (d.put place .directory)

/-- Makes a directory and the directories above it, unless there are. -/
def makeAll (p : Path) (d : Disk) : Disk × Except DiskError Unit :=
  match d.locate p with
  | .ok _ | .error (.refused .notFound _) =>
    if maxMissing < d.missing [] p.parts then (d, .error .tooDeep)
    else makeEach [] [] p.parts d
  | .error e => (d, .error e)

/-- The names in a directory. -/
def list (p : Path) (d : Disk) : Except DiskError (List String) := do
  let place ← d.locate p
  match d.item? place with
  | none => failAt p .notFound
  | some (.file _) => failAt p .notDirectory
  | some .directory =>
    .ok (d.items.filterMap fun i =>
      if i.1.dropLast = place then i.1.getLast? else none)

/-- Removes a directory with everything in it. -/
def removeAll (p : Path) (d : Disk) : Except DiskError Disk := do
  let place ← d.locate p
  match d.item? place with
  | none => failAt p .notFound
  | some (.file _) =>
    .error (.refused .notDirectory ("PosixPath(" ++ Text.quoted p.shown ++ ")"))
  | some .directory => .ok ⟨d.items.filter fun i => !place.isPrefixOf i.1⟩

end Disk

end BlueprintPatch

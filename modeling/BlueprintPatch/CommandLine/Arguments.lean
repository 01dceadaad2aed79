import BlueprintPatch.Text.DecimalDigit

/-! Arguments of the command: the options, how they may be written, and what a list of arguments
asks for. An option that takes a value is followed by it, or joined to it by an equals sign; long
names may be cut short as long as they stay unique. -/
namespace BlueprintPatch.CommandLine

inductive Switch
  | help
  | blueprint
  | store
  | exportDir
  | dryRun
  | config
deriving DecidableEq, Repr

namespace Switch

def name : Switch → String
  | help => "--help"
  | blueprint => "--blueprint"
  | store => "--store"
  | exportDir => "--export-dir"
  | dryRun => "--dry-run"
  | config => "--config"

def all : List Switch := [help, blueprint, store, exportDir, dryRun, config]

def takesValue : Switch → Bool
  | help => false
  | dryRun => false
  | _ => true

/-- The switch of that name, long or short. -/
def named? (s : String) : Option Switch :=
  if s = "-h" then some help else all.find? (·.name = s)

/-- The switches whose long names begin with the text. -/
def beginning (s : String) : List Switch := all.filter fun w => s.toList.isPrefixOf w.name.toList

end Switch

/-- What one argument is. -/
inductive Argument
  | value (s : String)
  /-- A switch, with what is joined to it. -/
  | switch (w : Switch) (joined : Option String)
  /-- `-h` with more characters. -/
  | shortHelp (more : List Char)
  | unknown
  /-- `--`, after which every argument is a value. -/
  | separator
deriving DecidableEq, Repr

/-- Why nothing is to be done. -/
inductive Refused
  | helpWanted
  | misused
deriving DecidableEq, Repr

/-- Whether the text is written like a negative number; a line may end after it. -/
def isNegativeNumber (cs : List Char) : Bool :=
  let isDigit (c : Char) : Bool := (Text.decimalDigit? c).isSome
  let isEnd (cs : List Char) : Bool := cs.isEmpty || cs = ['\n']
  match cs with
  | '-' :: rest =>
    let whole := rest.takeWhile isDigit
    match rest.dropWhile isDigit with
    | '.' :: places => !(places.takeWhile isDigit).isEmpty && isEnd (places.dropWhile isDigit)
    | left => !whole.isEmpty && isEnd left
  | _ => false

/-- The text before the first equals sign and the text after it, if there is one. -/
def splitJoined (s : String) : String × Option String :=
  match s.toList.dropWhile (· ≠ '=') with
  | [] => (s, none)
  | _ :: joined => (String.ofList (s.toList.takeWhile (· ≠ '=')), some (String.ofList joined))

/-- An argument that begins with a dash and is no switch. -/
def strayArgument (s : String) : Argument :=
  if isNegativeNumber s.toList || s.contains ' ' then .value s else .unknown

/-- A switch by a name cut short; one that several names begin with is an error. -/
def shortened (s : String) : Except Refused Argument :=
  let (front, joined) := splitJoined s
  match Switch.beginning front with
  | [] => .ok (strayArgument s)
  | [w] => .ok (.switch w joined)
  | _ => .error .misused

def classify (s : String) : Except Refused Argument :=
  if !s.startsWith "-" || s = "-" then .ok (.value s)
  else match Switch.named? s, splitJoined s with
    | some w, _ => .ok (.switch w none)
    | none, (front, joined) =>
      if s.startsWith "-h" then .ok (.shortHelp (s.toList.drop 2))
      else match Switch.named? front with
        | some w => .ok (.switch w joined)
        | none => if s.startsWith "--" then shortened s else .ok (strayArgument s)

def classifyAll : List String → Except Refused (List Argument)
  | [] => .ok []
  | s :: rest =>
    if s = "--" then .ok (.separator :: rest.map .value)
    else do .ok ((← classify s) :: (← classifyAll rest))

/-- What the command is asked to do. An option without a text counts as not given. -/
structure Invocation where
  patch : String
  /-- The exports in order; one without a text counts too. -/
  blueprints : List (Option String)
  store : Option String
  exportDir : Option String
  dryRun : Bool
  config : Option String
deriving DecidableEq, Repr

/-- What has been asked for up to some argument. -/
structure Partial where
  patch : Option String
  /-- Whether an argument has been left over. -/
  excess : Bool
  invocation : Invocation

def Partial.empty : Partial := ⟨none, false, ⟨"", [], none, none, false, none⟩⟩

/-- A joined value of two dashes stands for no text. -/
def joinedText (s : String) : Option String := if s = "--" then none else some s

def Partial.put (w : Switch) (text : Option String) (p : Partial) : Partial :=
  let i := p.invocation
  match w with
  | .blueprint => { p with invocation := { i with blueprints := i.blueprints ++ [text] } }
  | .store => { p with invocation := { i with store := text.filter (· ≠ "") } }
  | .exportDir => { p with invocation := { i with exportDir := text.filter (· ≠ "") } }
  | .config => { p with invocation := { i with config := text.filter (· ≠ "") } }
  | .dryRun => { p with invocation := { i with dryRun := true } }
  | .help => p

/-- What `-h` with more characters asks for. Behind an equals sign, if there is one, each of them
is a short option of its own, and `-h` is the only one that there is. -/
def ofShortHelp (more : List Char) : Refused :=
  let letters := if more.head? = some '=' then more.drop 1 else more
  if !letters.isEmpty && letters.all (· = 'h') then .helpWanted else .misused

/-- Takes the arguments in turn. The first value is the patch, and a separator beside it is
skipped. -/
def gather : List Argument → Partial → Except Refused Partial
  | [], p => .ok p
  | .value s :: rest, p =>
    if p.patch.isSome then gather rest { p with excess := true }
    else match rest with
      | .separator :: rest => gather rest { p with patch := some s }
      | rest => gather rest { p with patch := some s }
  | .separator :: rest, p =>
    match p.patch, rest with
    | none, .value s :: rest => gather rest { p with patch := some s }
    | _, rest => gather rest { p with excess := true }
  | .unknown :: rest, p => gather rest { p with excess := true }
  | .shortHelp more :: _, _ => .error (ofShortHelp more)
  | .switch w joined :: rest, p =>
    if w.takesValue then
      match joined, rest with
      | some s, rest => gather rest (p.put w (joinedText s))
      | none, .value s :: rest => gather rest (p.put w (some s))
      | none, _ => .error .misused
    else if joined.isSome then .error .misused
    else if w = .help then .error .helpWanted
    else gather rest (p.put w none)

/-- What the arguments ask for. -/
def interpret (arguments : List String) : Except Refused Invocation := do
  let p ← gather (← classifyAll arguments) Partial.empty
  match p.patch with
  | some patch => if p.excess then .error .misused else .ok { p.invocation with patch := patch }
  | none => .error .misused

def usage : String :=
  "usage: apply_patch.py [-h] [--blueprint BLUEPRINT] [--store STORE]\n"
    ++ "                      [--export-dir EXPORT_DIR] [--dry-run] [--config CONFIG]\n"
    ++ "                      patch\n"

def help : String :=
  usage ++ "\nApply a SurrealPilot patch to blueprint exports\n\n"
    ++ "positional arguments:\n"
    ++ "  patch                 Patch JSON file ('-' for stdin)\n\n"
    ++ "options:\n"
    ++ "  -h, --help            show this help message and exit\n"
    ++ "  --blueprint BLUEPRINT\n"
    ++ "                        Blueprint context export (repeatable)\n"
    ++ "  --store STORE         BlueprintStore directory to load from and save to\n"
    ++ "  --export-dir EXPORT_DIR\n"
    ++ "                        Directory for patched context exports\n"
    ++ "  --dry-run             Only check whether the patch applies\n"
    ++ "  --config CONFIG       Settings file (default: ~/.surrealpilot/config.json)\n"

end BlueprintPatch.CommandLine

import BlueprintPatch.Disk.JsonFile
import BlueprintPatch.Graph.Draft

/-! Settings of the engine and of the client. They come from a file, and the environment overrides
what the file says; a file that holds no JSON object is ignored. -/
namespace BlueprintPatch

structure Settings where
  port : Int
  apiUrl : Option String
  apiKey : Option String
  timeout : Binary64
  transactionLabel : String
  undoDepth : Int
  logLevel : String
deriving DecidableEq, Repr

/-- The variables of the environment. -/
abbrev Environment := List (String × String)

/-- The value of a variable, unless it is empty. -/
def Environment.text? (name : String) (env : Environment) : Option String :=
  (env.lookup name).filter (· ≠ "")

/-- Why there are no settings. -/
inductive SettingsError
  | file (e : FileError)
  | notObject (type : String)
  | rejected (r : Rejection)
deriving DecidableEq, Repr

def SettingsError.message : SettingsError → String
  | .file e => e.message
  | .notObject type =>
    "core.config.PilotSettings() argument after ** must be a mapping, not " ++ type
  | .rejected r => r.message

namespace Settings

def fieldNames : List String :=
  ["port", "api_url", "api_key", "timeout_s", "transaction_label", "undo_depth", "log_level"]

def check (fields : Fields) : Checked Settings :=
  Settings.mk <$> fields.take "port" 8000 Rule.integer
    <*> fields.take "api_url" none (Rule.optional Rule.text)
    <*> fields.take "api_key" none (Rule.optional Rule.text)
    <*> fields.take "timeout_s" (Binary64.ofDecimal false 30 0) Rule.number
    <*> fields.take "transaction_label" "Apply AI Patch" Rule.text
    <*> fields.take "undo_depth" 50 Rule.integer
    <*> fields.take "log_level" "INFO" Rule.text

def ofFields (fields : Fields) : Except SettingsError Settings :=
  match (check fields).about .settings with
  | .ok s => .ok s
  | .error r => .error (.rejected r)

def ofValue : Json → Except SettingsError Settings
  | .obj fields => ofFields fields
  | v => .error (.notObject v.typeName)

/-- Where the backend is: the given address without slashes at its end, or the local port. -/
def baseUrl (s : Settings) : String :=
  match s.apiUrl.filter (· ≠ "") with
  | some url => String.ofList (Text.trimEnd (· = '/') url.toList)
  | none => "http://127.0.0.1:" ++ toString s.port

/-- The file in the home directory of the user, which is the root unless a variable names it. -/
def defaultPath (env : Environment) : Path :=
  let home := ((env.text? "USERPROFILE").orElse fun _ => env.text? "HOME").getD "/"
  ((Path.ofText home).join ".surrealpilot").join "config.json"

def pathFor (path : Option String) (env : Environment) : Path :=
  match path.filter (· ≠ "") with
  | some s => Path.ofText s
  | none => defaultPath env

/-- The fields in the file at `p` that are settings. A file that cannot be opened or breaks the
grammar has none; one that breaks a limit or the encoding is an error. -/
def fileFields (p : Path) (d : Disk) : Except FileError Fields :=
  match d.has p with
  | .error e => .error (.disk e)
  | .ok false => .ok []
  | .ok true =>
    match d.readJson p with
    | .ok (.obj fields) => .ok (fields.filter (·.1 ∈ fieldNames))
    | .ok _ => .ok []
    | .error (.disk _) => .ok []
    | .error (.json _ (.malformed _ _)) => .ok []
    | .error e => .error e

/-- The variables of the environment that override a field. -/
def overrides : List (String × String) :=
  [("SURREALPILOT_API_URL", "api_url"), ("SURREALPILOT_API_KEY", "api_key"),
   ("SURREALPILOT_LOG_LEVEL", "log_level")]

def override (env : Environment) (fields : Fields) : Fields :=
  overrides.foldl (fun fields o => match env.text? o.1 with
    | some s => fields.put o.2 (.str s)
    | none => fields) fields

def load (path : Option String) (env : Environment) (d : Disk) : Except SettingsError Settings :=
  match fileFields (pathFor path env) d with
  | .error e => .error (.file e)
  | .ok fields => ofFields (override env fields)

end Settings

end BlueprintPatch

import BlueprintPatch.Backend.EventStream
import BlueprintPatch.Settings

/-! The client of the backend: which requests it makes and what it takes the replies for. How a
request is sent is a parameter. -/
namespace BlueprintPatch

structure Request where
  method : String
  url : String
  payload : Option Json
  headers : List (String × String)
  timeout : Binary64
deriving Repr

/-- What comes of a request: a status with a body, or a failure of the connection. -/
inductive Response
  | answered (status : Int) (body : String)
  | failed (reason : String)
deriving DecidableEq, Repr

inductive ClientError
  | requestFailed (reason : String)
  | status (code : Int) (body : String)
  | badJson (body : String) (fault : Json.Fault)
  /-- The body nests too deep to be decoded. -/
  | tooDeep (body : String) (fault : Json.Fault)
deriving DecidableEq, Repr

namespace Client

def userAgent : String := "SurrealPilot-UE-Plugin/1.0"

/-- What the user is told of the statuses that need no look at the body. -/
def statusMessages : List (Int × String) :=
  [(401, "Authentication failed. Please check your API key."),
   (402, "Insufficient credits. Please purchase more credits to continue."),
   (403, "Access denied. You don't have permission to use this feature."),
   (429, "Rate limit exceeded. Please wait before making another request."),
   (500, "Server error. Please try again later."),
   (503, "Service unavailable. The AI provider may be temporarily down.")]

def describeStatus (code : Int) (body : String) : String :=
  (statusMessages.lookup code).getD ("HTTP Error " ++ toString code ++ ": " ++ body)

def headers (s : Settings) : List (String × String) :=
  [("User-Agent", userAgent), ("Accept", "text/event-stream, application/json")] ++
    match s.apiKey with
    | some key => if key = "" then [] else [("Authorization", "Bearer " ++ key)]
    | none => []

def request (s : Settings) (method endpoint : String) (payload : Option Json) : Request :=
  ⟨method, s.baseUrl ++ endpoint, payload, headers s, s.timeout⟩

def healthRequest (s : Settings) : Request := request s "GET" "/api/health" none

def contextRequest (s : Settings) (context : Json) : Request :=
  request s "POST" "/api/context" (some (.obj [("context", context)]))

/-- A chat request; a provider that counts as true and a context are sent along. -/
def chatRequest (s : Settings) (messages provider : Json) (context : Json) : Request :=
  let providerField := if provider.isTruthy then [("provider", provider)] else []
  let contextField := match context with
    | .null => []
    | v => [("context", v)]
  request s "POST" "/api/chat"
    (some (.obj ([("messages", messages), ("stream", .bool true)] ++ providerField
      ++ contextField)))

/-- The body of a reply with the status of success. -/
def body : Response → Except ClientError String
  | .failed reason => .error (.requestFailed reason)
  | .answered status body => if status = 200 then .ok body else .error (.status status body)

def isHealthy (r : Response) : Bool := (body r).isOk

/-- The value that the backend answers to a context; an empty body stands for no fields. -/
def contextReply (r : Response) : Except ClientError Json := do
  let text ← body r
  if text = "" then .ok (.obj [])
  else match Json.read text with
    | .ok v => .ok v
    | .error (.tooDeep c) => .error (.tooDeep text (.tooDeep c))
    | .error fault => .error (.badJson text fault)

/-- The chunks of a chat reply. -/
def chatReply (r : Response) : Except ClientError (List String) :=
  (body r).map EventStream.payloads

end Client

namespace ClientError

def message : ClientError → String
  | requestFailed reason => "Request failed: " ++ reason
  | status code body => Client.describeStatus code body
  | badJson body fault => "Invalid JSON response: " ++ fault.message body.toList
  | tooDeep body fault => fault.message body.toList

/-- The status of the reply; zero if the status is not what is wrong. -/
def statusCode : ClientError → Int
  | status code _ => code
  | _ => 0

end ClientError

end BlueprintPatch

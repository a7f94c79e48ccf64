import EnvClient.Configuration
import EnvClient.Model.DefinitionText
import EnvClient.Model.Payload
import EnvClient.Operation

/-! The service's interface: requests for operations, and answers read as what was asked for. -/
namespace EnvClient

open Http (Answer Exchange Request)

structure Api where
  base : String
  authorization : Option String
  userAgent : String
deriving DecidableEq, Repr

structure Response (α : Type) where
  status : Nat
  data : α
  raw : String
deriving Repr

namespace Http.Answer

/-- A code that is no success is an error, described by the body where that is a document of
the service and by the phrase of the code where it says nothing. -/
def failure (a : Answer) : ClientError :=
  let document := (Json.decode Failure.read a.text).toOption
  let message := (document.bind (·.message)).or (Http.phrase? a.status)
  .service a.status (message.getD "request failed")
    ((document.bind (·.diagnostics)).getD []) a.text

def success (a : Answer) : Except ClientError Answer :=
  if Http.isSuccess a.status then .ok a else .error a.failure

def json {α : Type} [Payload α] (a : Answer) : Except ClientError (Response α) :=
  match Json.decode Payload.read a.text with
  | .ok data => .ok ⟨a.status, data, a.text⟩
  | .error e => .error (.decode e)

/-- A blank body stands for a payload without content. -/
def jsonOr {α : Type} [Payload α] (blank : α) (a : Answer) : Except ClientError (Response α) :=
  if Text.isBlank a.text then .ok ⟨a.status, blank, a.text⟩ else json a

def definition (a : Answer) : Except ClientError (Response Definition) :=
  match Definition.ofYaml? a.text with
  | some data => .ok ⟨a.status, data, a.text⟩
  | none => .error .definition

def unit (a : Answer) : Except ClientError (Response Unit) := .ok ⟨a.status, (), a.text⟩

end Http.Answer

namespace Api

def root : String := "/api/preview"

def jsonType : String := "application/json"
def yamlType : String := "application/x-yaml"

/-- The token and the user agent must be texts that headers can hold. -/
def ofConfiguration (c : Configuration) : Except ClientError Api :=
  let authorization := c.token.map ("token " ++ ·)
  if authorization.any (!Http.isHeaderText ·) then
    .error (.config "access token is not a valid header value: failed to parse header value")
  else if !Http.isHeaderText c.userAgent then .error (.transport .userAgent)
  else .ok ⟨Configuration.trimUrl c.backend ++ root, authorization, c.userAgent⟩

def pathChars (segments : List String) : List Char :=
  segments.flatMap fun segment => '/' :: Url.encodeSegment segment

def url (api : Api) (segments : List String) : String :=
  api.base ++ "/environments" ++ String.ofList (pathChars segments)

def address? (api : Api) (op : Operation) : Option Url :=
  (Url.ofText? (api.url op.segments)).map fun url =>
    match op.query? with
    | some (name, value) => url.addPair name value
    | none => url

def headers (api : Api) (op : Operation) : List (String × String) :=
  [("accept", if op.acceptsYaml then yamlType else jsonType)] ++
    (match api.authorization with
      | some value => [("authorization", value)]
      | none => []) ++
    (if op.yaml?.isSome then [("content-type", yamlType)] else []) ++
    [("user-agent", api.userAgent)]

def request (api : Api) (op : Operation) (url : Url) : Request :=
  ⟨op.method, url.target, api.headers op, op.yaml?.getD ""⟩

def exchange (api : Api) (op : Operation) : Exchange Answer :=
  match api.address? op with
  | none => throw (.transport .url)
  | some url => Http.send url (api.request op url)

def call {α : Type} (api : Api) (op : Operation) (read : Answer → Except ClientError (Response α)) :
    Exchange (Response α) := do
  let answer ← api.exchange op
  MonadExcept.ofExcept (answer.success.bind read)

variable (api : Api)

def list (organization : String) (token : Option String) : Exchange (Response Page) :=
  api.call (.list organization token) Answer.json

def create (organization environment : String) : Exchange (Response Unit) :=
  api.call (.create organization environment) Answer.unit

def definition (organization environment : String) : Exchange (Response Definition) :=
  api.call (.definition organization environment) Answer.definition

def decrypted (organization environment : String) : Exchange (Response Definition) :=
  api.call (.decrypted organization environment) Answer.definition

def update (organization environment yaml : String) : Exchange (Response Report) :=
  api.call (.update organization environment yaml) (Answer.jsonOr .empty)

def delete (organization environment : String) : Exchange (Response Unit) :=
  api.call (.delete organization environment) Answer.unit

def check (organization yaml : String) : Exchange (Response Check) :=
  api.call (.check organization yaml) (Answer.jsonOr .empty)

def openSession (organization environment : String) : Exchange (Response Session) :=
  api.call (.openSession organization environment) Answer.json

def read (organization environment session : String) : Exchange (Response Environment) :=
  api.call (.read organization environment session) Answer.json

def property (organization environment session path : String) : Exchange (Response Record) :=
  api.call (.property organization environment session path) Answer.json

end Api
end EnvClient

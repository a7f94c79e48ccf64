import EnvClient.Api

/-! A client of the service: what its interface says, put together and resolved. -/
namespace EnvClient

open Http (Exchange)

structure StoredDefinition where
  definition : Definition
  yaml : String

structure OpenedEnvironment where
  environment : Environment
  values : Option (Members Json)
  raw : String

structure ResolvedProperty where
  record : Record
  value : Json

structure Client where
  api : Api

namespace Client

variable (client : Client)

def list (organization : String) (token : Option String) : Exchange Page := do
  return (← client.api.list organization token).data

/-- The environments of the page with a token and of all after it. Every page takes an answer
off the network, so `fuel` need only exceed the number of answers to come. -/
def listFrom (organization : String) : (fuel : Nat) → Option String → Exchange (List Summary)
  | 0, _ => throw (.transport .closed)
  | fuel + 1, token => do
    let page ← client.list organization token
    match page.next? with
    | none => return page.environments
    | some next => return page.environments ++ (← listFrom organization fuel (some next))

def listAll (organization : String) : Exchange (List Summary) := do
  client.listFrom organization ((← get).replies.length + 1) none

def stored (r : Response Definition) : StoredDefinition := ⟨r.data, r.raw⟩

def definition (organization environment : String) : Exchange StoredDefinition :=
  stored <$> client.api.definition organization environment

def decrypted (organization environment : String) : Exchange StoredDefinition :=
  stored <$> client.api.decrypted organization environment

def create (organization environment : String) : Exchange Unit := do
  return (← client.api.create organization environment).data

def delete (organization environment : String) : Exchange Unit := do
  return (← client.api.delete organization environment).data

def updateYaml (organization environment yaml : String) : Exchange Report := do
  return (← client.api.update organization environment yaml).data

def update (organization environment : String) (d : Definition) : Exchange Report :=
  client.updateYaml organization environment d.toYaml

/-- The check that an error of code 400 carries, if its body is one with diagnostics. -/
def invalid? : ClientError → Option Check
  | .service 400 _ _ body => (Json.decode Check.read body).toOption.filter (!·.isValid)
  | _ => none

/-- A definition that the service refuses with diagnostics is no error. -/
def checkYaml (organization yaml : String) : Exchange Check :=
  tryCatch (do return (← client.api.check organization yaml).data) fun e =>
    match invalid? e with
    | some check => return check
    | none => throw e

def check (organization : String) (d : Definition) : Exchange Check :=
  client.checkYaml organization d.toYaml

def openSession (organization environment : String) : Exchange Session := do
  return (← client.api.openSession organization environment).data

def opened (r : Response Environment) : OpenedEnvironment :=
  ⟨r.data, r.data.properties.map NamedProperties.resolve, r.raw⟩

def read (organization environment session : String) : Exchange OpenedEnvironment :=
  opened <$> client.api.read organization environment session

/-- A session whose environment cannot be read stays open. -/
def openAndRead (organization environment : String) : Exchange OpenedEnvironment := do
  let session ← client.openSession organization environment
  client.read organization environment session.id

def property (organization environment session path : String) : Exchange ResolvedProperty := do
  let r ← client.api.property organization environment session path
  return ⟨r.data, r.data.value.resolve⟩

end Client
end EnvClient

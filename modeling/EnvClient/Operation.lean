import EnvClient.Http.Network

/-! What the service is asked for, and how each question is put. -/
namespace EnvClient

open Http (Method)

inductive Operation where
  | list (organization : String) (token : Option String)
  | create (organization environment : String)
  | definition (organization environment : String)
  | decrypted (organization environment : String)
  | update (organization environment yaml : String)
  | delete (organization environment : String)
  | check (organization yaml : String)
  | openSession (organization environment : String)
  | read (organization environment session : String)
  | property (organization environment session path : String)
deriving DecidableEq, Repr

namespace Operation

def method : Operation → Method
  | list .. | definition .. | decrypted .. | read .. | property .. => .get
  | create .. | check .. | openSession .. => .post
  | update .. => .patch
  | delete .. => .delete

def segments : Operation → List String
  | list organization _ => [organization]
  | create organization environment | definition organization environment
  | update organization environment _ | delete organization environment =>
    [organization, environment]
  | decrypted organization environment => [organization, environment, "decrypt"]
  | check organization _ => [organization, "yaml", "check"]
  | openSession organization environment => [organization, environment, "open"]
  | read organization environment session | property organization environment session _ =>
    [organization, environment, "open", session]

def query? : Operation → Option (String × String)
  | list _ (some token) => some ("continuationToken", token)
  | property _ _ _ path => some ("property", path)
  | _ => none

def yaml? : Operation → Option String
  | update _ _ yaml | check _ yaml => some yaml
  | _ => none

def acceptsYaml : Operation → Bool
  | definition .. | decrypted .. => true
  | _ => false

end Operation
end EnvClient

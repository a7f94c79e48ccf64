import EnvClient.Text.Blank

/-! Settings of a client. -/
namespace EnvClient

structure Configuration where
  backend : String
  token : Option String
  userAgent : String
  timeout : Option Nat
deriving DecidableEq, Repr

namespace Configuration

def defaultBackend : String := "https://api.pulumi.com"
def defaultUserAgent : String := "esc-sdk/0.1.0"

def backendVariable : String := "PULUMI_BACKEND_URL"
def tokenVariable : String := "PULUMI_ACCESS_TOKEN"
def userAgentVariable : String := "ESC_USER_AGENT"

def default : Configuration := ⟨defaultBackend, none, defaultUserAgent, none⟩

instance : Inhabited Configuration := ⟨default⟩

def trimUrl (url : String) : String := Text.trimEnd '/' url

/-- Settings from variables; a blank variable counts as unset. -/
def ofVariables (lookup : String → Option String) : Configuration :=
  let set? (name : String) := (lookup name).filter (!Text.isBlank ·)
  { backend := ((set? backendVariable).map trimUrl).getD defaultBackend
    token := set? tokenVariable
    userAgent := (set? userAgentVariable).getD defaultUserAgent
    timeout := none }

def withBackend (url : String) (c : Configuration) : Configuration :=
  { c with backend := trimUrl url }

def withToken (token : String) (c : Configuration) : Configuration :=
  { c with token := some token }

def withUserAgent (userAgent : String) (c : Configuration) : Configuration := { c with userAgent }

/-- A limit on each request, in milliseconds. -/
def withTimeout (milliseconds : Nat) (c : Configuration) : Configuration :=
  { c with timeout := some milliseconds }

end Configuration
end EnvClient

import EnvClient.Model.Diagnostic
import EnvClient.Storage

/-! Failures of the client. -/
namespace EnvClient

inductive TransportFault where
  | userAgent
  | url
  | unreachable
  | closed
  | bodyCut
deriving DecidableEq, Repr

def TransportFault.text : TransportFault → String
  | userAgent => "user agent is not a valid header value"
  | url => "not a usable URL"
  | unreachable => "no connection could be made"
  | closed => "connection closed before an answer"
  | bodyCut => "body ended early"

inductive ClientError where
  | service (status : Nat) (message : String) (diagnostics : List Diagnostic) (body : String)
  | transport (fault : TransportFault)
  | decode (error : Json.ReadError)
  | definition
  | storage (fault : StorageFault)
  | config (message : String)
deriving DecidableEq, Repr

namespace ClientError

def transportHead : String := "[esc] request failed: "
def decodeHead : String := "[esc] failed to decode response: "
def definitionHead : String := "[esc] invalid environment definition: "
def storageHead : String := "[esc] i/o error: "

/-- The summaries of the diagnostics follow the message, one a line. -/
def serviceText (status : Nat) (message : String) (diagnostics : List Diagnostic) : String :=
  "[esc] [" ++ toString status ++ "] " ++ message ++
    (if diagnostics.isEmpty then "" else
      "\nDiags:" ++ String.join (diagnostics.map fun d => "\n" ++ d.summary))

def message : ClientError → String
  | service status text diagnostics _ => serviceText status text diagnostics
  | transport fault => transportHead ++ fault.text
  | decode error => decodeHead ++ error.text
  | definition => definitionHead ++ "not a YAML definition"
  | storage fault => storageHead ++ fault.text
  | config text => "[esc] invalid configuration: " ++ text

def cause? : ClientError → Option String
  | transport fault => some fault.text
  | decode error => some error.text
  | definition => some "not a YAML definition"
  | storage fault => some fault.text
  | _ => none

def status? : ClientError → Option Nat
  | service status _ _ _ => some status
  | _ => none

def isNotFound (e : ClientError) : Bool := e.status? == some 404

end ClientError
end EnvClient

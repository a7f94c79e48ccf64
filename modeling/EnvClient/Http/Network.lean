import EnvClient.Error
import EnvClient.Http.Status
import EnvClient.Url.Basic

/-! Requests and the answers to them. A network knows which hosts can be reached, holds the
answers still to come, and keeps the requests that have been sent. -/
namespace EnvClient.Http

inductive Method where
  | get
  | post
  | patch
  | delete
deriving DecidableEq, Repr

def Method.name : Method → String
  | get => "GET"
  | post => "POST"
  | patch => "PATCH"
  | delete => "DELETE"

structure Request where
  method : Method
  target : String
  headers : List (String × String)
  body : String
deriving DecidableEq, Repr

/-- An answer, or the start of one that breaks off within its body. -/
inductive Reply where
  | whole (status : Nat) (body : List UInt8)
  | cut (status : Nat)
deriving DecidableEq, Repr

structure Network where
  reaches : (origin : String) → Bool
  replies : List Reply
  sent : List Request

def Network.silent : Network := ⟨fun _ => false, [], []⟩

instance : Inhabited Network := ⟨.silent⟩

abbrev Exchange (α : Type) := ExceptT ClientError (StateM Network) α

structure Answer where
  status : Nat
  text : String
deriving DecidableEq, Repr

/-- A host that is reached gets the request, even if no answer is left. Targets may have any
length. -/
def Network.send (origin : String) (request : Request) (n : Network) :
    Except TransportFault Answer × Network :=
  if !n.reaches origin then (.error .unreachable, n)
  else
    let sent := n.sent ++ [request]
    match n.replies with
    | [] => (.error .closed, { n with sent })
    | .cut _ :: replies => (.error .bodyCut, { n with replies, sent })
    | .whole status body :: replies =>
      let body := if isBodiless status then [] else body
      (.ok ⟨status, Text.Utf8.lossy body⟩, { n with replies, sent })

def send (url : Url) (request : Request) : Exchange Answer := fun n =>
  let (result, n) := n.send url.origin request
  (result.mapError .transport, n)

/-- Characters that a header may hold: of the ASCII control characters only tabs. -/
def isHeaderChar (c : Char) : Bool := (' ' ≤ c && c != '\x7f') || c == '\t'

def isHeaderText (s : String) : Bool := s.toList.all isHeaderChar

end EnvClient.Http

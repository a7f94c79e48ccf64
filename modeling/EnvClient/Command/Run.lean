import EnvClient.Client
import EnvClient.Command.Arguments
import EnvClient.Command.Source

/-! Running commands: what they ask the service for, what they print, and how they end. -/
namespace EnvClient

open Http (Exchange Network)

inductive ExitCode where
  | success
  | failure
  | misuse
deriving DecidableEq, Repr

def ExitCode.number : ExitCode → UInt8
  | success => 0
  | failure => 1
  | misuse => 2

structure Outcome where
  code : ExitCode
  output : String
  errors : String
deriving DecidableEq, Repr

structure Resources where
  network : Network
  disk : Disk

inductive CommandError where
  | client (error : ClientError)
  | source (error : SourceError)
  | refused (message : String)
deriving DecidableEq, Repr

def CommandError.lines : CommandError → String
  | client error => error.message ++ "\n" ++
      (match error.cause? with
        | some cause => cause ++ "\n"
        | none => "")
  | source error => error.message ++ "\n"
  | refused message => message ++ "\n"

abbrev Run (α : Type) := ExceptT CommandError (StateM Resources) α

namespace Run

def exchange {α : Type} (x : Exchange α) : Run α := fun r =>
  let (result, network) := x r.network
  (result.mapError .client, { r with network })

def write (properties : Option NamedProperties) (options : EnvironmentOptions) : Run String :=
  fun r =>
    let (result, disk) := NamedProperties.write properties options r.disk
    (result.mapError fun fault => .client (.storage fault), { r with disk })

def text (source : Source) (file : String) : Run String :=
  MonadExcept.ofExcept ((source.read file).mapError .source)

end Run

namespace Outcome

def printed (output : String) : Outcome := ⟨.success, output, ""⟩

def confirmed (message : String) : Outcome := ⟨.success, "", message ++ "\n"⟩

def reported (ds : List Diagnostic) (confirmation : Option String) : Outcome :=
  if ds.isEmpty then ⟨.success, "", (confirmation.map (· ++ "\n")).getD ""⟩
  else ⟨.failure, "", Diagnostic.lines ds⟩

end Outcome

namespace Command

variable (client : Client)

def runGet (organization environment : String) (showSecrets : Bool) (format : Option Format) :
    Run Outcome := do
  let stored ← Run.exchange <|
    if showSecrets then client.decrypted organization environment
    else client.definition organization environment
  match format with
  | none => return .printed stored.yaml
  | some format =>
    let check ← Run.exchange (client.checkYaml organization stored.yaml)
    if check.isValid then
      return .printed (← Run.write check.properties ⟨format, showSecrets, true⟩)
    else return .reported check.list none

def runOpen (organization environment : String) (property : Option String) (format : Format)
    (pretend : Bool) : Run Outcome := do
  if let some message := format.refusal? property then throw (.refused message)
  let session ← Run.exchange (client.openSession organization environment)
  let diagnostics := session.diagnostics.getD []
  if !diagnostics.isEmpty then return .reported diagnostics none
  match property with
  | some path =>
    let resolved ← Run.exchange (client.property organization environment session.id path)
    return .printed (format.value resolved.value)
  | none =>
    let opened ← Run.exchange (client.read organization environment session.id)
    return .printed (← Run.write opened.environment.properties ⟨format, true, pretend⟩)

def run (source : Source) : Command → Run Outcome
  | list organization => do
    let summaries ← Run.exchange (client.listAll organization)
    return .printed (String.join (summaries.map Summary.line))
  | create organization environment => do
    Run.exchange (client.create organization environment)
    return .confirmed "Environment created."
  | get organization environment showSecrets format =>
    runGet client organization environment showSecrets format
  | update organization environment file => do
    let yaml ← Run.text source file
    let report ← Run.exchange (client.updateYaml organization environment yaml)
    return .reported report.list (some "Environment updated.")
  | check organization file => do
    let yaml ← Run.text source file
    let check ← Run.exchange (client.checkYaml organization yaml)
    return .reported check.list (some "Environment definition is valid.")
  | remove organization environment => do
    Run.exchange (client.delete organization environment)
    return .confirmed "Environment deleted."
  | openEnvironment organization environment property format pretend =>
    runOpen client organization environment property format pretend

end Command

namespace Invocation

def configuration (i : Invocation) (lookup : String → Option String) : Configuration :=
  let c := Configuration.ofVariables lookup
  match i.backend with
  | some url => c.withBackend url
  | none => c

def run (i : Invocation) (lookup : String → Option String) (source : Source) : Run Outcome :=
  match Api.ofConfiguration (i.configuration lookup) with
  | .error e => throw (.client e)
  | .ok api => i.command.run ⟨api⟩ source

end Invocation

/-- A failed run prints nothing but its error. -/
def Outcome.ofResult : Except CommandError Outcome → Outcome
  | .ok outcome => outcome
  | .error e => ⟨.failure, "", e.lines⟩

def usage : String :=
  "Usage: esc [--backend-url <URL>] env <COMMAND>\n\n" ++
  "Commands:\n" ++
  "  ls <ORG>\n" ++
  "  init <ORG> <ENV>\n" ++
  "  get [--show-secrets] [--value <FORMAT>] <ORG> <ENV>\n" ++
  "  update <ORG> <ENV> <FILE>\n" ++
  "  check <ORG> <FILE>\n" ++
  "  rm <ORG> <ENV>\n" ++
  "  open [-p <PROPERTY>] [-F <FORMAT>] [--pretend] <ORG> <ENV>\n\n" ++
  "Formats: json, yaml, dotenv, shell\n"

def versionLine : String := "esc-sdk 0.1.0\n"

def runArguments (args : List String) (lookup : String → Option String) (source : Source)
    (r : Resources) : Outcome × Resources :=
  match Invocation.ofArguments args with
  | .ok invocation =>
    let (result, r) := invocation.run lookup source r
    (.ofResult result, r)
  | .error .version => (.printed versionLine, r)
  | .error .help => (.printed usage, r)
  | .error .misuse => (⟨.misuse, "", usage⟩, r)

end EnvClient

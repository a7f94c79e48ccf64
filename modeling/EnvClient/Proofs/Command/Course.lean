import EnvClient.Command.Run
import EnvClient.Proofs.Paging

/-! The course of a command: what it asks the service for, one operation after another, and how it
ends. Both are decided by the replies that are heard, and a run does what its course says. -/
namespace EnvClient

open Http (Answer Exchange Reply)

inductive Ending where
  | unheard
  | failed (error : CommandError)
  | complaint (diagnostics : List Diagnostic)
  | done (output errors : String)
  | written (properties : Option NamedProperties) (options : EnvironmentOptions)

structure Course where
  operations : List Operation
  ending : Ending

namespace Ending

/-- Only the writing of an environment needs more than what was heard. -/
def run (fault : TransportFault) : Ending → Run Outcome
  | unheard => throw (.client (.transport fault))
  | failed error => throw error
  | complaint diagnostics => pure ⟨.failure, "", Diagnostic.lines diagnostics⟩
  | done output errors => pure ⟨.success, output, errors⟩
  | written properties options => do return .printed (← Run.write properties options)

def printed (output : String) : Ending := done output ""

def reported (diagnostics : List Diagnostic) (confirmation : String) : Ending :=
  if diagnostics.isEmpty then done "" confirmation else complaint diagnostics

end Ending

namespace Course

variable {α : Type}

def ask (op : Operation) (read : Reply → Except ClientError α) (next : α → List Reply → Course) :
    List Reply → Course
  | [] => ⟨[op], .unheard⟩
  | r :: replies =>
    match read r with
    | .ok a => ⟨op :: (next a replies).operations, (next a replies).ending⟩
    | .error e => ⟨[op], .failed (.client e)⟩

def last (op : Operation) (read : Reply → Except ClientError α) (ending : α → Ending) :
    List Reply → Course :=
  ask op read fun a _ => ⟨[], ending a⟩

variable {op : Operation} {read : Reply → Except ClientError α} {r : Reply}

theorem ask_ok {a : α} (h : read r = .ok a) (next : α → List Reply → Course)
    (replies : List Reply) : ask op read next (r :: replies) =
      ⟨op :: (next a replies).operations, (next a replies).ending⟩ := by
  rw [ask, h]

theorem ask_error {e : ClientError} (h : read r = .error e) (next : α → List Reply → Course)
    (replies : List Reply) :
    ask op read next (r :: replies) = ⟨[op], .failed (.client e)⟩ := by
  rw [ask, h]

end Course

namespace Run

variable {α : Type} {api : Api}

/-- The run asks for the operations of its course and then ends as the course does. -/
def Follows (api : Api) (x : Run Outcome) (course : List Reply → Course) : Prop :=
  ∀ r : Resources,
    x.run r = ((course (api.heard r.network)).ending.run (api.fault r.network)).run
      { r with network := (course (api.heard r.network)).operations.foldl api.asked r.network }

theorem follows_ending {x : Run Outcome} {ending : Ending}
    (h : ∀ fault, x = ending.run fault) : Follows api x fun _ => ⟨[], ending⟩ := by
  intro r
  rw [h (api.fault r.network)]
  rfl

theorem follows_reported (diagnostics : List Diagnostic) (confirmation : Option String) :
    Follows api (pure (.reported diagnostics confirmation))
      fun _ => ⟨[], .reported diagnostics ((confirmation.map (· ++ "\n")).getD "")⟩ := by
  apply follows_ending
  intro fault
  unfold Outcome.reported Ending.reported
  split
  · rfl
  · rfl

theorem run_exchange {x : Exchange α} {r : Resources} {result : Except ClientError α}
    {n : Http.Network} (h : x.run r.network = (result, n)) :
    (Run.exchange x).run r = (result.mapError .client, { r with network := n }) := by
  change Run.exchange x r = _
  unfold Run.exchange
  rw [show x r.network = _ from h]

theorem follows_ask {x : Exchange α} {op : Operation} {read : Reply → Except ClientError α}
    (h : api.Asks op x read) {f : α → Run Outcome} {next : α → List Reply → Course}
    (hf : ∀ a, Follows api (f a) (next a)) :
    Follows api (Run.exchange x >>= f) (Course.ask op read next) := by
  intro r
  cases hheard : api.heard r.network with
  | nil => exact run_bind_error (run_exchange (h.unheard hheard)) _
  | cons reply replies =>
    have hrun := run_exchange (h.heard hheard)
    cases hread : read reply with
    | error e =>
      rw [hread] at hrun
      rw [run_bind_error hrun, Course.ask_error hread]
      rfl
    | ok a =>
      rw [hread] at hrun
      rw [run_bind_ok hrun, hf a, Api.heard_asked, Api.fault_asked, hheard, Course.ask_ok hread]
      rfl

theorem follows_last {x : Exchange α} {op : Operation} {read : Reply → Except ClientError α}
    (h : api.Asks op x read) {f : α → Run Outcome} {ending : α → Ending}
    (hf : ∀ a fault, f a = (ending a).run fault) :
    Follows api (Run.exchange x >>= f) (Course.last op read ending) :=
  follows_ask h fun a => follows_ending (hf a)

end Run

namespace Command

def textCourse (source : Source) (file : String) (next : String → List Reply → Course) :
    List Reply → Course :=
  match source.read file with
  | .ok yaml => next yaml
  | .error e => fun _ => ⟨[], .failed (.source e)⟩

def listCourse (organization : String) (replies : List Reply) : Course :=
  ⟨Operation.pages organization none replies,
    match Client.listing? replies with
    | some (.ok summaries) => .printed (String.join (summaries.map Summary.line))
    | some (.error e) => .failed (.client e)
    | none => .unheard⟩

def getCourse (organization environment : String) (showSecrets : Bool) (format : Option Format) :
    List Reply → Course :=
  .ask (if showSecrets then .decrypted organization environment
      else .definition organization environment)
    (fun r => (r.read Answer.definition).map Client.stored) fun stored =>
      match format with
      | none => fun _ => ⟨[], .printed stored.yaml⟩
      | some format =>
        .last (.check organization stored.yaml) (fun r => r.answer.bind Answer.verdict) fun check =>
          if check.isValid then .written check.properties ⟨format, showSecrets, true⟩
          else .complaint check.list

def sessionCourse (organization environment : String) (property : Option String) (format : Format)
    (pretend : Bool) (session : Session) : List Reply → Course :=
  if (session.diagnostics.getD []).isEmpty then
    match property with
    | some path =>
      .last (.property organization environment session.id path)
        (fun r => (r.read (Answer.json (α := Record))).map fun response =>
          (⟨response.data, response.data.value.resolve⟩ : ResolvedProperty))
        fun resolved => .printed (format.value resolved.value)
    | none =>
      .last (.read organization environment session.id)
        (fun r => (r.read (Answer.json (α := Environment))).map Client.opened)
        fun opened => .written opened.environment.properties ⟨format, true, pretend⟩
  else fun _ => ⟨[], .complaint (session.diagnostics.getD [])⟩

def openCourse (organization environment : String) (property : Option String) (format : Format)
    (pretend : Bool) : List Reply → Course :=
  match format.refusal? property with
  | some message => fun _ => ⟨[], .failed (.refused message)⟩
  | none =>
    .ask (.openSession organization environment)
      (fun r => (r.read (Answer.json (α := Session))).map (·.data))
      (sessionCourse organization environment property format pretend)

theorem openCourse_eq {property : Option String} {format : Format}
    (h : format.refusal? property = none) (organization environment : String) (pretend : Bool) :
    openCourse organization environment property format pretend =
      .ask (.openSession organization environment)
        (fun r => (r.read (Answer.json (α := Session))).map (·.data))
        (sessionCourse organization environment property format pretend) := by
  rw [openCourse, h]

def course (source : Source) : Command → List Reply → Course
  | list organization => listCourse organization
  | create organization environment =>
    .last (.create organization environment) (fun r => (r.read Answer.unit).map (·.data))
      fun _ => .done "" "Environment created.\n"
  | get organization environment showSecrets format =>
    getCourse organization environment showSecrets format
  | update organization environment file =>
    textCourse source file fun yaml =>
      .last (.update organization environment yaml)
        (fun r => (r.read (Answer.jsonOr Report.empty)).map (·.data))
        fun report => .reported report.list "Environment updated.\n"
  | check organization file =>
    textCourse source file fun yaml =>
      .last (.check organization yaml) (fun r => r.answer.bind Answer.verdict)
        fun check => .reported check.list "Environment definition is valid.\n"
  | remove organization environment =>
    .last (.delete organization environment) (fun r => (r.read Answer.unit).map (·.data))
      fun _ => .done "" "Environment deleted.\n"
  | openEnvironment organization environment property format pretend =>
    openCourse organization environment property format pretend

variable (api : Api)

theorem follows_text {source : Source} {file : String} {f : String → Run Outcome}
    {next : String → List Reply → Course} (hf : ∀ yaml, Run.Follows api (f yaml) (next yaml)) :
    Run.Follows api (Run.text source file >>= f) (textCourse source file next) := by
  unfold Run.text textCourse
  cases source.read file with
  | ok yaml => exact hf yaml
  | error e => exact Run.follows_ending fun _ => rfl

theorem follows_list (source : Source) (organization : String) :
    Run.Follows api ((Command.list organization).run ⟨api⟩ source) (listCourse organization) := by
  intro r
  have hrun := Run.run_exchange (Client.run_listAll ⟨api⟩ organization r.network)
  rw [run, listCourse]
  rcases hlisting : Client.listing? (api.heard r.network) with _ | _ | summaries <;>
    rw [hlisting] at hrun
  · exact run_bind_error hrun _
  · exact run_bind_error hrun _
  · exact run_bind_ok hrun _

theorem asks_get (organization environment : String) (showSecrets : Bool) :
    api.Asks (if showSecrets then .decrypted organization environment
        else .definition organization environment)
      (if showSecrets then Client.decrypted ⟨api⟩ organization environment
        else Client.definition ⟨api⟩ organization environment)
      fun r => (r.read Answer.definition).map Client.stored := by
  cases showSecrets with
  | true => exact Client.asks_decrypted ⟨api⟩ organization environment
  | false => exact Client.asks_definition ⟨api⟩ organization environment

theorem follows_get (organization environment : String) (showSecrets : Bool)
    (format : Option Format) :
    Run.Follows api (runGet ⟨api⟩ organization environment showSecrets format)
      (getCourse organization environment showSecrets format) := by
  apply Run.follows_ask (asks_get api organization environment showSecrets)
  intro stored
  cases format with
  | none => exact Run.follows_ending fun _ => rfl
  | some format =>
    apply Run.follows_last (Client.asks_checkYaml ⟨api⟩ organization stored.yaml)
    intro check fault
    cases hvalid : check.isValid with
    | true => rfl
    | false => exact congrArg pure (if_neg (Bool.eq_false_iff.mp hvalid))

theorem follows_session (organization environment : String) (property : Option String)
    (format : Format) (pretend : Bool) (session : Session) :
    Run.Follows api (do
      let diagnostics := session.diagnostics.getD []
      if !diagnostics.isEmpty then return Outcome.reported diagnostics none
      match property with
      | some path =>
        let resolved ← Run.exchange (Client.property ⟨api⟩ organization environment session.id path)
        return Outcome.printed (format.value resolved.value)
      | none =>
        let opened ← Run.exchange (Client.read ⟨api⟩ organization environment session.id)
        return Outcome.printed (← Run.write opened.environment.properties ⟨format, true, pretend⟩))
      (sessionCourse organization environment property format pretend session) := by
  dsimp only [sessionCourse]
  cases hclean : (session.diagnostics.getD []).isEmpty with
  | false =>
    apply Run.follows_ending
    intro fault
    exact congrArg pure (if_neg (Bool.eq_false_iff.mp hclean))
  | true =>
    cases property with
    | some path =>
      exact Run.follows_last
        (Client.asks_property ⟨api⟩ organization environment session.id path) fun _ _ => rfl
    | none =>
      exact Run.follows_last
        (Client.asks_read ⟨api⟩ organization environment session.id) fun _ _ => rfl

theorem follows_open (organization environment : String) (property : Option String)
    (format : Format) (pretend : Bool) :
    Run.Follows api (runOpen ⟨api⟩ organization environment property format pretend)
      (openCourse organization environment property format pretend) := by
  unfold runOpen openCourse
  cases format.refusal? property with
  | some message => exact Run.follows_ending fun _ => rfl
  | none =>
    exact Run.follows_ask (Client.asks_openSession ⟨api⟩ organization environment)
      fun session =>
        follows_session api organization environment property format pretend session

/-- Whatever is heard, a command does what its course says. -/
theorem follows_run (source : Source) (command : Command) :
    Run.Follows api (command.run ⟨api⟩ source) (command.course source) := by
  cases command with
  | list organization => exact follows_list api source organization
  | create organization environment =>
    exact Run.follows_last (Client.asks_create ⟨api⟩ organization environment) fun _ _ => rfl
  | get organization environment showSecrets format =>
    exact follows_get api organization environment showSecrets format
  | update organization environment file =>
    exact follows_text api fun yaml =>
      Run.follows_ask (Client.asks_updateYaml ⟨api⟩ organization environment yaml)
        fun report => Run.follows_reported report.list _
  | check organization file =>
    exact follows_text api fun yaml =>
      Run.follows_ask (Client.asks_checkYaml ⟨api⟩ organization yaml)
        fun check => Run.follows_reported check.list _
  | remove organization environment =>
    exact Run.follows_last (Client.asks_delete ⟨api⟩ organization environment) fun _ _ => rfl
  | openEnvironment organization environment property format pretend =>
    exact follows_open api organization environment property format pretend

end Command
end EnvClient

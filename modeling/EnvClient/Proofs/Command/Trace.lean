import EnvClient.Proofs.Command.Course

/-! What commands ask the service for. A command asks for one thing after another; whether it
goes on, and with what, is decided by the replies so far and by nothing else. -/
namespace EnvClient

open Http (Answer Reply Request)

/-- What a command asks for when it hears these replies. -/
def Command.operations (source : Source) (replies : List Reply) : Command → List Operation
  | .list organization => Operation.pages organization none replies
  | .create organization environment => [.create organization environment]
  | .remove organization environment => [.delete organization environment]
  | .update organization environment file =>
    match source.read file with
    | .ok yaml => [.update organization environment yaml]
    | .error _ => []
  | .check organization file =>
    match source.read file with
    | .ok yaml => [.check organization yaml]
    | .error _ => []
  | .get organization environment showSecrets format =>
    (if showSecrets then .decrypted organization environment
      else .definition organization environment) ::
      match format, replies.head?.bind Reply.definition? with
      | some _, some yaml => [.check organization yaml]
      | _, _ => []
  | .openEnvironment organization environment property format _ =>
    if property.isSome ∧ (format = .dotenv ∨ format = .shell) then []
    else
      .openSession organization environment ::
        match replies.head?.bind Reply.session?, property with
        | some session, some path => [.property organization environment session path]
        | some session, none => [.read organization environment session]
        | none, _ => []

theorem Course.operations_last {α : Type} (op : Operation)
    (read : Reply → Except ClientError α) (ending : α → Ending) (replies : List Reply) :
    (last op read ending replies).operations = [op] := by
  unfold last ask
  split
  · rfl
  · split <;> rfl

namespace Command

theorem operations_get (source : Source) (organization environment : String) (showSecrets : Bool)
    (format : Option Format) (replies : List Reply) :
    (getCourse organization environment showSecrets format replies).operations =
      (Command.get organization environment showSecrets format).operations source replies := by
  cases format with
  | none => exact Course.operations_last _ _ _ _
  | some format =>
    cases replies with
    | nil => rfl
    | cons r replies =>
      have hdefinition := Reply.toOption_read_definition r
      cases hread : r.read Answer.definition with
      | error e =>
        rw [hread] at hdefinition
        rw [getCourse, Course.ask_error (congrArg (Except.map Client.stored) hread)]
        refine congrArg (List.cons _) ?_
        rw [List.head?_cons, Option.bind_some, ← hdefinition]
        rfl
      | ok response =>
        rw [hread] at hdefinition
        rw [getCourse, Course.ask_ok (congrArg (Except.map Client.stored) hread)]
        refine congrArg (List.cons _) ?_
        rw [List.head?_cons, Option.bind_some, ← hdefinition]
        exact Course.operations_last _ _ _ _

theorem refusal?_isSome (format : Format) (property : Option String) :
    (format.refusal? property).isSome = true ↔
      property.isSome ∧ (format = .dotenv ∨ format = .shell) := by
  cases property <;> cases format <;> simp [Format.refusal?, Format.isStructured]

theorem operations_open (source : Source) (organization environment : String)
    (property : Option String) (format : Format) (pretend : Bool) (replies : List Reply) :
    (openCourse organization environment property format pretend replies).operations =
      (openEnvironment organization environment property format pretend).operations source
        replies := by
  have hrefusal := refusal?_isSome format property
  unfold openCourse
  cases hmessage : format.refusal? property with
  | some message =>
    rw [hmessage] at hrefusal
    exact (if_pos (hrefusal.mp rfl)).symm
  | none =>
    rw [hmessage] at hrefusal
    refine Eq.trans ?_ (if_neg fun h => Bool.false_ne_true (hrefusal.mpr h)).symm
    cases replies with
    | nil => cases property <;> rfl
    | cons r replies =>
      rw [List.head?_cons, Option.bind_some, Reply.session?, ← Reply.toOption_read_json]
      dsimp only
      cases hread : (r.read (Answer.json (α := Session))).map (·.data) with
      | error e =>
        rw [Course.ask_error hread]
        cases property <;> rfl
      | ok session =>
        rw [Course.ask_ok hread, Except.toOption, Option.filter_some]
        unfold sessionCourse
        refine congrArg (List.cons _) ?_
        cases (session.diagnostics.getD []).isEmpty with
        | false => cases property <;> rfl
        | true =>
          cases property with
          | some path => exact Course.operations_last _ _ _ _
          | none => exact Course.operations_last _ _ _ _

theorem operations_text {source : Source} {file : String} {next : String → List Reply → Course}
    {op : String → Operation} (h : ∀ yaml replies, (next yaml replies).operations = [op yaml])
    (replies : List Reply) : (textCourse source file next replies).operations =
      match source.read file with
      | .ok yaml => [op yaml]
      | .error _ => [] := by
  unfold textCourse
  cases source.read file with
  | ok yaml => exact h yaml replies
  | error e => rfl

theorem operations_course (source : Source) (replies : List Reply) (command : Command) :
    (command.course source replies).operations = command.operations source replies := by
  cases command with
  | list organization => rfl
  | create organization environment => exact Course.operations_last _ _ _ _
  | get organization environment showSecrets format =>
    exact operations_get source organization environment showSecrets format replies
  | update organization environment file =>
    exact operations_text (fun yaml => Course.operations_last _ _ _) replies
  | check organization file => exact operations_text (fun yaml => Course.operations_last _ _ _) replies
  | remove organization environment => exact Course.operations_last _ _ _ _
  | openEnvironment organization environment property format pretend =>
    exact operations_open source organization environment property format pretend replies

end Command

theorem runArguments_eq {args : List String} {invocation : Invocation}
    (hargs : Invocation.ofArguments args = .ok invocation) (lookup : String → Option String)
    (source : Source) (r : Resources) : runArguments args lookup source r =
      (.ofResult ((invocation.run lookup source).run r).1,
        ((invocation.run lookup source).run r).2) := by
  rw [runArguments, hargs]
  rfl

end EnvClient

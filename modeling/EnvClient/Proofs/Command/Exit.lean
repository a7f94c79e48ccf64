import EnvClient.Proofs.Command.Ending

/-! How commands end. A run is a success just if its command can be carried out, every operation
that it asks for gets a reply without a complaint, and its files are kept. A run that is none has
printed nothing and leaves no file behind; a complaint is all that it shows. -/
namespace EnvClient

open Http (Answer Reply)

namespace Operation

theorem diagnostics?_list (organization : String) (token : Option String) (r : Reply) :
    (list organization token).diagnostics? r = r.page.toOption.map fun _ => [] :=
  (Reply.map_const_read_json _ _ r).symm

theorem accepted_pages_iff (organization : String) (token : Option String)
    (replies : List Reply) : Accepted (pages organization token replies) replies ↔
      ∃ summaries, Client.listing? replies = some (.ok summaries) := by
  induction replies generalizing token with
  | nil => exact iff_of_false not_accepted_of_no_reply fun ⟨_, heq⟩ => by cases heq
  | cons r replies ih =>
    have hop := diagnostics?_list organization token r
    cases hpage : r.page with
    | error e =>
      rw [hpage] at hop
      rw [pages_error hpage, Client.listing?_error hpage, accepted_cons, hop]
      exact iff_of_false (fun h => by cases h.1) fun ⟨_, heq⟩ => by cases heq
    | ok page =>
      rw [hpage, Except.toOption, Option.map_some] at hop
      rw [pages_ok hpage, Client.listing?_ok hpage, accepted_cons, and_iff_right hop]
      cases page.next? with
      | none => exact iff_of_true (accepted_nil replies) ⟨_, rfl⟩
      | some next =>
        dsimp only
        rw [ih]
        rcases Client.listing? replies with _ | _ | summaries <;> simp [Except.map]

theorem eq_list_of_mem_pages {organization : String} {token : Option String}
    {replies : List Reply} {op : Operation} (h : op ∈ pages organization token replies) :
    ∃ token, op = .list organization token := by
  induction replies generalizing token with
  | nil => exact ⟨token, List.mem_singleton.mp h⟩
  | cons r replies ih =>
    rw [pages] at h
    cases List.mem_cons.mp h with
    | inl heq => exact ⟨token, heq⟩
    | inr hrest =>
      split at hrest
      · exact ih hrest
      · cases hrest

theorem not_complains_pages {organization : String} {token : Option String}
    {replies heard : List Reply} {ds : List Diagnostic} :
    ¬Complains (pages organization token replies) heard ds := by
  rintro ⟨hne, ⟨op, r⟩, hmem, hds⟩
  obtain ⟨token, rfl⟩ := eq_list_of_mem_pages (List.of_mem_zip hmem).1
  obtain ⟨page, -, heq⟩ := Option.map_eq_some_iff.mp hds
  exact hne heq.symm

end Operation

namespace Command

/-- The file of a command can be read, and a property is asked for in a format that holds any
value. -/
def Ready (source : Source) : Command → Prop
  | .update _ _ file | .check _ file => ∃ yaml, source.read file = .ok yaml
  | .openEnvironment _ _ property format _ =>
    ¬(property.isSome ∧ (format = .dotenv ∨ format = .shell))
  | _ => True

def written (replies : List Reply) : Command → List String
  | .openEnvironment _ _ none format pretend =>
    match replies[1]?.bind fun r => r.payload? (α := Environment) with
    | some environment => NamedProperties.written environment.properties ⟨format, true, pretend⟩
    | none => []
  | _ => []

theorem tells_list (organization : String) (replies : List Reply) :
    (listCourse organization replies).Tells replies [] := by
  unfold listCourse
  refine ⟨?_, ?_, fun _ hds => absurd hds Operation.not_complains_pages⟩
  · rw [Operation.accepted_pages_iff]
    rcases Client.listing? replies with _ | _ | summaries <;>
      simp [Ending.isSuccess, Ending.printed]
  · rcases Client.listing? replies with _ | _ | summaries <;> exact fun _ => rfl

theorem diagnostics?_get (organization environment : String) (showSecrets : Bool) (r : Reply) :
    (if showSecrets then Operation.decrypted organization environment
      else Operation.definition organization environment).diagnostics? r =
      ((r.read Answer.definition).map Client.stored).toOption.map fun _ => [] := by
  have hop : (if showSecrets then Operation.decrypted organization environment
      else Operation.definition organization environment).diagnostics? r =
      r.definition?.map fun _ => [] := by
    cases showSecrets <;> rfl
  rw [hop, ← Reply.toOption_read_definition]
  cases r.read Answer.definition <;> rfl

theorem tells_get (organization environment : String) (showSecrets : Bool)
    (format : Option Format) (replies : List Reply) :
    (getCourse organization environment showSecrets format replies).Tells replies [] := by
  have hread := diagnostics?_get organization environment showSecrets
  cases format with
  | none => exact Course.tells_silent hread replies
  | some format =>
    refine Course.tells_ask (fun _ => []) hread (fun _ stored _ _ => ?_)
      (fun _ hne => absurd rfl hne) replies
    refine Course.tells_last (fun _ => rfl) (fun check hclean => ?_) fun check hne => ?_
    · rw [if_pos (show check.isValid = true from List.isEmpty_iff.mpr hclean)]
      exact ⟨rfl, if_pos (.inr rfl)⟩
    · exact if_neg (mt List.isEmpty_iff.mp hne)

theorem payload?_of_opened {r : Reply} {opened : OpenedEnvironment}
    (h : (r.read (Answer.json (α := Environment))).map Client.opened = .ok opened) :
    r.payload? = some opened.environment := by
  rw [← Reply.toOption_read_json]
  cases hread : r.read (Answer.json (α := Environment)) with
  | error e =>
    rw [hread] at h
    cases h
  | ok response =>
    rw [hread] at h
    cases h
    rfl

theorem tells_session (organization environment : String) (property : Option String)
    (format : Format) (pretend : Bool) {session : Session}
    (hclean : session.diagnostics.getD [] = []) (first : Reply) (replies : List Reply) :
    (sessionCourse organization environment property format pretend session replies).Tells replies
      ((openEnvironment organization environment property format pretend).written
        (first :: replies)) := by
  unfold sessionCourse
  rw [hclean]
  cases property with
  | some path =>
    refine Course.tells_silent (fun r => ?_) replies
    exact (Reply.map_const_read_json _ _ r).symm
  | none =>
    refine Course.tells_ask (fun replies => (openEnvironment organization environment none format
      pretend).written (first :: replies)) (fun r => ?_) (fun second opened hopened _ rest => ?_)
      (fun _ hne => absurd rfl hne) replies
    · exact (Reply.map_const_read_json _ _ r).symm
    · have hwritten : (openEnvironment organization environment none format pretend).written
          (first :: second :: rest) =
          NamedProperties.written opened.environment.properties ⟨format, true, pretend⟩ := by
        simp [written, payload?_of_opened hopened]
      rw [hwritten]
      exact Course.tells_of_isSuccess rfl rest

theorem tells_open {property : Option String} {format : Format}
    (h : format.refusal? property = none) (organization environment : String) (pretend : Bool)
    (replies : List Reply) :
    (openCourse organization environment property format pretend replies).Tells replies
      ((openEnvironment organization environment property format pretend).written replies) := by
  have hread : ∀ r : Reply, (Operation.openSession organization environment).diagnostics? r =
      ((r.read (Answer.json (α := Session))).map (·.data)).toOption.map
        fun session => session.diagnostics.getD [] := by
    intro r
    rw [Reply.toOption_read_json]
    rfl
  rw [openCourse_eq h]
  refine Course.tells_ask (fun replies => written replies _) hread
    (fun first session _ hclean => ?_) (fun session hne _ => ?_) replies
  · exact tells_session organization environment property format pretend hclean first
  · unfold sessionCourse
    rw [if_neg (mt List.isEmpty_iff.mp hne)]

theorem textCourse_eq {source : Source} {file yaml : String} (h : source.read file = .ok yaml)
    (next : String → List Reply → Course) : textCourse source file next = next yaml := by
  rw [textCourse, h]

theorem diagnostics?_unit {op : Operation}
    (h : ∀ r : Reply, op.diagnostics? r = r.success?.map fun _ => []) (r : Reply) :
    op.diagnostics? r = ((r.read Answer.unit).map (·.data)).toOption.map fun _ => [] := by
  rw [h, Reply.toOption_map_read]
  cases r.success? <;> rfl

theorem tells_course {source : Source} {command : Command} (h : command.Ready source)
    (replies : List Reply) :
    (command.course source replies).Tells replies (command.written replies) := by
  cases command with
  | list organization => exact tells_list organization replies
  | create organization environment =>
    exact Course.tells_silent (diagnostics?_unit fun _ => rfl) replies
  | get organization environment showSecrets format =>
    exact tells_get organization environment showSecrets format replies
  | update organization environment file =>
    obtain ⟨yaml, hyaml⟩ := h
    rw [course, textCourse_eq hyaml]
    refine Course.tells_reported (fun r => ?_) _ replies
    rw [Reply.toOption_read_report]
    rfl
  | check organization file =>
    obtain ⟨yaml, hyaml⟩ := h
    rw [course, textCourse_eq hyaml]
    exact Course.tells_reported (fun _ => rfl) _ replies
  | remove organization environment =>
    exact Course.tells_silent (diagnostics?_unit fun _ => rfl) replies
  | openEnvironment organization environment property format pretend =>
    have hrefusal : format.refusal? property = none := by
      rw [← Option.not_isSome_iff_eq_none, refusal?_isSome]
      exact h
    exact tells_open hrefusal organization environment pretend replies

theorem course_of_not_ready {source : Source} {command : Command} (h : ¬command.Ready source)
    (replies : List Reply) : ∃ e, command.course source replies = ⟨[], .failed e⟩ := by
  have htext : ∀ {file : String} {next : String → List Reply → Course},
      (¬∃ yaml, source.read file = .ok yaml) →
      ∃ e, textCourse source file next replies = ⟨[], .failed e⟩ := by
    intro file next hfile
    unfold textCourse
    cases hread : source.read file with
    | ok yaml => exact absurd ⟨yaml, hread⟩ hfile
    | error e => exact ⟨_, rfl⟩
  cases command with
  | update organization environment file => exact htext h
  | check organization file => exact htext h
  | openEnvironment organization environment property format pretend =>
    have hrefused := (refusal?_isSome format property).mpr (not_not.mp h)
    obtain ⟨message, hmessage⟩ := Option.isSome_iff_exists.mp hrefused
    refine ⟨.refused message, ?_⟩
    rw [course, openCourse, hmessage]
  | _ => exact absurd trivial h

theorem exit_run (api : Api) (source : Source) (command : Command) {r : Resources}
    (hsorted : Members.Sorted r.disk.files) (hnew : r.disk.GivesNewPaths) :
    let run := (command.run ⟨api⟩ source).run r
    let outcome := Outcome.ofResult run.1
    let heard := api.heard r.network
    (outcome.code = .success ↔ command.Ready source ∧
      Operation.Accepted (command.operations source heard) heard ∧
      r.disk.firstFault? (command.written heard) = none) ∧
    (outcome.code ≠ .success → outcome.code = .failure ∧ outcome.output = "" ∧
      run.2.disk.files = r.disk.files) ∧
    ∀ ds, Operation.Complains (command.operations source heard) heard ds →
      outcome = ⟨.failure, "", Diagnostic.lines ds⟩ := by
  intro run outcome heard
  have hrun := follows_run api source command r
  obtain ⟨hsuccess, hfailure⟩ := Ending.outcome_run (command.course source heard).ending
    (api.fault r.network) (r := { r with
      network := (command.course source heard).operations.foldl api.asked r.network }) hsorted hnew
  rw [← hrun] at hsuccess hfailure
  refine ⟨hsuccess.trans ?_, hfailure, fun ds hds => ?_⟩
  · by_cases hready : command.Ready source
    · have htells := tells_course hready heard
      rw [and_iff_right hready, ← operations_course, ← htells.success]
      exact and_congr_right fun h => by rw [htells.contents h]
    · obtain ⟨e, hcourse⟩ := course_of_not_ready hready heard
      rw [hcourse]
      exact iff_of_false (fun h => Bool.false_ne_true h.1) fun h => hready h.1
  · by_cases hready : command.Ready source
    · have htells := (tells_course hready heard).complaint
      rw [operations_course] at htells
      rw [show outcome = Outcome.ofResult run.1 from rfl, show run = _ from hrun,
        htells ds hds]
      rfl
    · obtain ⟨e, hcourse⟩ := course_of_not_ready hready heard
      rw [← operations_course, hcourse] at hds
      exact absurd hds Operation.not_complains_nil

end Command

/-- A command line succeeds just if its configuration is accepted, its command is ready, every
operation has a reply that is no failure and has no diagnostics, and no file fails. If it does not
succeed, it prints nothing and the disk holds what it held; diagnostics are all that it shows. -/
theorem runArguments_exit {args : List String} {lookup : String → Option String}
    {invocation : Invocation} (source : Source) (r : Resources)
    (hargs : Invocation.ofArguments args = .ok invocation) (hsorted : Members.Sorted r.disk.files)
    (hnew : r.disk.GivesNewPaths) :
    let configured := Api.ofConfiguration (invocation.configuration lookup)
    let run := runArguments args lookup source r
    (run.1.code = .success ↔ ∃ api, configured = .ok api ∧ invocation.command.Ready source ∧
      Operation.Accepted (invocation.command.operations source (api.heard r.network))
        (api.heard r.network) ∧
      r.disk.firstFault? (invocation.command.written (api.heard r.network)) = none) ∧
    (run.1.code ≠ .success → run.1.code = .failure ∧ run.1.output = "" ∧
      run.2.disk.files = r.disk.files) ∧
    ∀ api ds, configured = .ok api →
      Operation.Complains (invocation.command.operations source (api.heard r.network))
        (api.heard r.network) ds →
      run.1 = ⟨.failure, "", String.join (ds.map fun d =>
        (d.path.elim d.summary fun path => path ++ ": " ++ d.summary) ++ "\n")⟩ := by
  intro configured run
  rw [show run = _ from runArguments_eq hargs lookup source r, Invocation.run]
  cases hapi : configured with
  | error e =>
    rw [show Api.ofConfiguration (invocation.configuration lookup) = .error e from hapi]
    refine ⟨iff_of_false (fun heq => by cases heq) ?_, fun _ => ⟨rfl, rfl, rfl⟩, ?_⟩
    · rintro ⟨_, heq, -⟩
      cases heq
    · intro _ _ heq
      cases heq
  | ok api =>
    rw [show Api.ofConfiguration (invocation.configuration lookup) = .ok api from hapi]
    obtain ⟨hsuccess, hfailure, hcomplaint⟩ :=
      Command.exit_run api source invocation.command hsorted hnew
    refine ⟨hsuccess.trans ⟨fun h => ⟨api, rfl, h⟩, ?_⟩, hfailure, ?_⟩
    · rintro ⟨_, heq, h⟩
      cases heq
      exact h
    · intro _ ds heq hds
      cases heq
      rw [← Diagnostic.lines_eq]
      exact hcomplaint ds hds

/-- A definition with two complaints, and an environment whose one file is kept or lost. -/
theorem runArguments_exit_complaint :
    let source : Source := ⟨[], fun _ => .error .missing⟩
    let resources (fate : Fate) (bodies : List (Nat × String)) : Resources :=
      ⟨⟨fun _ => true, bodies.map fun (code, body) => .whole code (Text.Utf8.encode body), []⟩,
        ⟨[], fun n => String.ofList (List.replicate n 'x'), fun _ _ => fate, 0⟩⟩
    let invalid := resources .kept [(200, "values: \x7b\x7d"),
      (400, "[null,null,null,[[\"unknown name\",\"values.a\"],[\"unused\"]]]")]
    let opened (fate : Fate) := resources fate [(200, "[\"s1\"]"),
      (200, "[null,\x7b\"files\":[\x7b\"CERT\":\"c\"\x7d]\x7d]")]
    let run (args : List String) := runArguments ("env" :: args) (fun _ => none) source
    let openShell := run ["open", "acme", "dev", "--format=shell"]
    (run ["get", "acme", "dev", "--value=json"] invalid).1 =
        ⟨.failure, "", "values.a: unknown name\nunused\n"⟩ ∧
      (openShell (opened .kept)).1.code = .success ∧
      (openShell (opened .lost)).1.output = "" ∧ (openShell (opened .lost)).2.disk.files = [] := by
  intro source resources invalid opened run openShell
  have hnew (fate : Fate) (bodies : List (Nat × String)) :
      (resources fate bodies).disk.GivesNewPaths := by
    apply Disk.givesNewPaths_of_injective
    · intro m n heq
      have hlength := congrArg String.length heq
      simpa [resources] using hlength
    · exact fun _ _ => List.not_mem_nil
  have hapi : Api.ofConfiguration (Configuration.ofVariables fun _ => none) = .ok .standard := rfl
  have hget : Invocation.ofArguments ["env", "get", "acme", "dev", "--value=json"] =
      .ok ⟨none, .get "acme" "dev" false (some .json)⟩ := by decide +kernel
  have hopen : Invocation.ofArguments ["env", "open", "acme", "dev", "--format=shell"] =
      .ok ⟨none, .openEnvironment "acme" "dev" none .shell false⟩ := by decide +kernel
  obtain ⟨-, -, hcomplaint⟩ := @runArguments_exit _ (fun _ => none) _ source invalid hget
    Members.sorted_nil (hnew _ _)
  obtain ⟨hkept, -, -⟩ := @runArguments_exit _ (fun _ => none) _ source (opened .kept) hopen
    Members.sorted_nil (hnew _ _)
  obtain ⟨hlost, hclean, -⟩ := @runArguments_exit _ (fun _ => none) _ source (opened .lost) hopen
    Members.sorted_nil (hnew _ _)
  have hfailed : (openShell (opened .lost)).1.code ≠ .success := by
    intro hsuccess
    obtain ⟨api, hconfigured, -, -, hnone⟩ := hlost.mp hsuccess
    cases hapi.symm.trans hconfigured
    revert hnone
    decide +kernel
  refine ⟨?_, ?_, (hclean hfailed).2.1, (hclean hfailed).2.2⟩
  · have hds := hcomplaint .standard
      [⟨"unknown name", some "values.a", none⟩, ⟨"unused", none, none⟩] hapi (by decide +kernel)
    exact hds.trans (by decide +kernel)
  · have hready : (Command.openEnvironment "acme" "dev" none .shell false).Ready source := by
      simp [Command.Ready]
    exact hkept.mpr ⟨.standard, hapi, hready, by decide +kernel, by decide +kernel⟩

end EnvClient

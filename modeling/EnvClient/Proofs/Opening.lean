import EnvClient.Proofs.Calls

/-! Opening an environment and reading it. The second request names the session that the answer to
the first one opened. What comes of the two is the first error of them, or the text of the second
answer together with what was read from it. -/
namespace EnvClient

open Http (Answer Method Network Reply Request)

theorem Environment.properties_eq_none_iff {depth : Nat} {doc : Json.Doc}
    {environment : Environment} (h : read depth doc = .ok environment) :
    environment.properties = none ↔
      doc.part? "properties" 1 = none ∨ doc.part? "properties" 1 = some .null := by
  obtain ⟨⟨exprs, properties, schema, _⟩, hrow, h⟩ := Json.Result.bind_eq_ok.mp h
  cases h
  obtain ⟨below, -, -, hproperties, -⟩ := Json.Fields.readsParts_read (by decide) hrow
  exact hproperties.eq_none_iff

namespace Http.Reply

variable {α : Type} [Payload α] {r : Reply} {e : ClientError}

/-- Why a reply gives no payload: it breaks off, its code is none of success, or its text cannot
be read. -/
inductive Fails (α : Type) [Payload α] : Reply → ClientError → Prop where
  | cut (status : Nat) : Fails α (.cut status) (.transport .bodyCut)
  | refused {r : Reply} {answer : Answer} {message : String} {diagnostics : List Diagnostic}
      (hanswer : r.answer = .ok answer) (hstatus : isSuccess answer.status = false)
      (hfailure : answer.failure = .service answer.status message diagnostics answer.text) :
      Fails α r (.service answer.status message diagnostics answer.text)
  | unreadable {r : Reply} {answer : Answer} {e : Json.ReadError}
      (hanswer : r.answer = .ok answer) (hstatus : isSuccess answer.status = true)
      (hread : Json.decode (Payload.read (α := α)) answer.text = .error e) : Fails α r (.decode e)

theorem read_json_eq_error_iff : r.read (Answer.json (α := α)) = .error e ↔ r.Fails α e := by
  constructor
  · intro h
    cases r with
    | cut status =>
      cases h
      exact .cut status
    | whole status body =>
      cases hstatus : isSuccess status with
      | false =>
        rw [Reply.read, answer, Except.bind, Answer.success, if_neg (by simp [hstatus])] at h
        cases h
        exact .refused rfl hstatus rfl
      | true =>
        rw [Reply.read, answer, Except.bind, Answer.success, if_pos hstatus, Except.bind,
          Answer.json] at h
        split at h
        · cases h
        · rename_i hread
          cases h
          exact .unreadable rfl hstatus hread
  · intro h
    cases h with
    | cut status => rfl
    | refused hanswer hstatus hfailure =>
      rw [Reply.read, hanswer, Except.bind, Answer.success, if_neg (by simp [hstatus]), hfailure]
      rfl
    | unreadable hanswer hstatus hread =>
      rw [Reply.read, hanswer, Except.bind, Answer.success, if_pos hstatus, Except.bind,
        Answer.json, hread]

theorem read_json_eq_ok {response : Response α}
    (h : r.read (Answer.json (α := α)) = .ok response) :
    r.success? = some ⟨response.status, response.raw⟩ ∧
      Json.decode Payload.read response.raw = .ok response.data := by
  cases r with
  | cut status => cases h
  | whole status body =>
    cases hstatus : isSuccess status with
    | false =>
      rw [Reply.read, answer, Except.bind, Answer.success, if_neg (by simp [hstatus])] at h
      cases h
    | true =>
      rw [Reply.read, answer, Except.bind, Answer.success, if_pos hstatus, Except.bind,
        Answer.json] at h
      split at h
      · rename_i hread
        cases h
        exact ⟨if_pos hstatus, hread⟩
      · cases h

theorem payload?_eq_some {value : α} : r.payload? = some value ↔
    (r.read (Answer.json (α := α))).map (·.data) = .ok value := by
  rw [← toOption_read_json]
  cases (r.read (Answer.json (α := α))).map (·.data) <;> simp [Except.toOption]

theorem decode_of_payload? {value : α} (h : r.payload? = some value) :
    ∃ text, Json.decode Payload.read text = .ok value := by
  rw [payload?_eq_some] at h
  cases hread : r.read (Answer.json (α := α)) with
  | error e =>
    rw [hread] at h
    cases h
  | ok response =>
    rw [hread] at h
    cases h
    exact ⟨response.raw, (read_json_eq_ok hread).2⟩

theorem payload?_eq_none : r.payload? (α := α) = none ↔ ∃ e, r.Fails α e := by
  simp only [← read_json_eq_error_iff]
  rw [← toOption_read_json]
  cases r.read (Answer.json (α := α)) <;> simp [Except.toOption, Except.map]

end Http.Reply

namespace OpenedEnvironment

/-- Three views of one text: itself, the environment that is read from it, and the plain values of
that, which are left out just if the text has no properties or null for them. -/
structure Shows (opened : OpenedEnvironment) (text : String) : Prop where
  raw : opened.raw = text
  environment : Json.decode Environment.read text = .ok opened.environment
  absent : opened.values = none ↔
    (Json.Doc.ofText text.toList).1.part? "properties" 1 = none ∨
      (Json.Doc.ofText text.toList).1.part? "properties" 1 = some .null
  values : ∀ values ∈ opened.values, ∃ properties, opened.environment.properties = some properties ∧
    Members.names values = Members.names properties ∧ ∀ name, Members.get? name values =
      (Members.get? name properties).map fun record => record.value.resolve

theorem shows_opened {response : Response Environment}
    (h : Json.decode Environment.read response.raw = .ok response.data) :
    (Client.opened response).Shows response.raw := by
  refine ⟨rfl, h, ?_, fun values hmem => ?_⟩
  · rw [← Environment.properties_eq_none_iff (Json.read_of_decode h)]
    exact Option.map_eq_none_iff
  · obtain ⟨properties, hproperties, rfl⟩ := Option.map_eq_some_iff.mp hmem
    exact ⟨properties, hproperties, Members.names_mapValues _ _,
      fun name => Members.get?_mapValues _ name properties⟩

/-- An answer without a body is no environment, so the text is that of the whole reply. -/
theorem exists_shows {r : Reply} {response : Response Environment}
    (h : r.read (Answer.json (α := Environment)) = .ok response) :
    ∃ status body, r = .whole status body ∧
      (Client.opened response).Shows (Text.Utf8.lossy body) := by
  obtain ⟨hsuccess, hdecode⟩ := Reply.read_json_eq_ok h
  cases r with
  | cut status => cases hsuccess
  | whole status body =>
    refine ⟨status, body, rfl, ?_⟩
    obtain ⟨-, hanswer⟩ := Option.ite_none_right_eq_some.mp hsuccess
    have hraw : Text.Utf8.lossy (if Http.isBodiless status then [] else body) = response.raw :=
      congrArg Answer.text (Option.some.inj hanswer)
    by_cases hbodiless : Http.isBodiless status
    · rw [if_pos hbodiless] at hraw
      have hempty : response.raw = "" := hraw.symm
      rw [hempty] at hdecode
      cases hdecode
    · rw [if_neg hbodiless] at hraw
      rw [hraw]
      exact shows_opened hdecode

end OpenedEnvironment

namespace Api

/-- The request has this method and the path and query of the URL for these segments. -/
structure Aims (api : Api) (method : Method) (segments : List String) (request : Request) :
    Prop where
  method : request.method = method
  target : ∃ url, Url.ofText? (api.url segments) = some url ∧ request.target = url.target

theorem exists_aims {api : Api} {n : Network} (h : api.reached n = true) (op : Operation)
    (hquery : op.query? = none) :
    ∃ request, api.Aims op.method op.segments request ∧ api.requests op n = [request] := by
  obtain ⟨url, haddress, -, hrequests⟩ := requests_of_reached h op
  obtain ⟨place, hplace, hurl⟩ := Option.map_eq_some_iff.mp haddress
  rw [hquery] at hurl
  exact ⟨_, ⟨rfl, place, hplace, congrArg Url.target hurl.symm⟩, hrequests⟩

end Api

namespace Client

variable (client : Client) (organization environment : String) {n : Network}
  {first second : Reply} {rest : List Reply}

theorem run_openAndRead (hheard : client.api.heard n = first :: second :: rest) :
    (client.openAndRead organization environment).run n =
      match (first.read (Answer.json (α := Session))).map (·.data) with
      | .error e => (.error e, client.api.asked n (.openSession organization environment))
      | .ok session => ((second.read (Answer.json (α := Environment))).map opened,
        client.api.asked (client.api.asked n (.openSession organization environment))
          (.read organization environment session.id)) := by
  have hopen := (client.asks_openSession organization environment).heard hheard
  unfold openAndRead
  cases hfirst : (first.read (Answer.json (α := Session))).map (·.data) with
  | error e => exact run_bind_error (hfirst ▸ hopen) _
  | ok session =>
    have hrest : client.api.heard
        (client.api.asked n (.openSession organization environment)) = second :: rest := by
      rw [Api.heard_asked, hheard, List.tail_cons]
    rw [run_bind_ok (hfirst ▸ hopen)]
    exact (client.asks_read organization environment session.id).heard hrest

/-- An environment is opened, and read only if that gave a session, which the second request names.
The result is the first error, or it shows the text of the second reply. -/
theorem openAndRead_exact (hreached : client.api.reached n = true)
    (hreplies : n.replies = first :: second :: rest) :
    ∃ (opening : Request) (reading : String → Request)
      (result : Except ClientError OpenedEnvironment),
      client.api.Aims .post [organization, environment, "open"] opening ∧
      (∀ id, client.api.Aims .get [organization, environment, "open", id] (reading id)) ∧
      (client.openAndRead organization environment).run n = (result,
        (first.payload? (α := Session)).elim (n.after [opening] (second :: rest))
          fun session => n.after [opening, reading session.id] rest) ∧
      ((∃ opened, result = .ok opened) ↔ (first.payload? (α := Session)).isSome ∧
        (second.payload? (α := Environment)).isSome) ∧
      (∀ e, result = .error e ↔ first.Fails Session e ∨
        (first.payload? (α := Session)).isSome ∧ second.Fails Environment e) ∧
      ∀ opened, result = .ok opened → ∃ status body, second = .whole status body ∧
        opened.Shows (Text.Utf8.lossy body) ∧
        ∀ text, body = Text.Utf8.encode text →
          text.toList.head? ≠ some Text.Utf8.byteOrderMark → opened.raw = text := by
  have hrun := client.run_openAndRead organization environment
    (Api.heard_eq_cons.mpr ⟨hreached, hreplies⟩)
  obtain ⟨opening, hopening, hfirst⟩ := Api.exists_aims hreached
    (.openSession organization environment) rfl
  have hreading : ∀ id, ∃ request,
      client.api.Aims .get [organization, environment, "open", id] request ∧
      client.api.requests (.read organization environment id) n = [request] :=
    fun id => Api.exists_aims hreached (.read organization environment id) rfl
  obtain ⟨reading, hreading⟩ := Classical.axiomOfChoice hreading
  have hasked : client.api.asked n (.openSession organization environment) =
      n.after [opening] (second :: rest) := by
    rw [Api.asked, if_pos hreached, hfirst, hreplies]
    rfl
  have hasked' : ∀ id, client.api.asked (client.api.asked n (.openSession organization environment))
      (.read organization environment id) = n.after [opening, reading id] rest := by
    intro id
    rw [Api.asked, Api.reached_asked, if_pos hreached, Api.requests_asked, (hreading id).2, hasked]
    exact n.after_after [opening] [reading id] (second :: rest) rest
  -- Whether the second reply is taken, and what is asked for it, is up to the first one alone.
  cases hsession : first.payload? (α := Session) with
  | none =>
    obtain ⟨e, hfails⟩ := Reply.payload?_eq_none.mp hsession
    have hread := Reply.read_json_eq_error_iff.mpr hfails
    rw [hread] at hrun
    refine ⟨opening, reading, .error e, hopening, fun id => (hreading id).1, ?_, ?_, ?_, ?_⟩
    · rw [hrun, ← hasked]
      rfl
    · simp
    · intro e'
      rw [← Reply.read_json_eq_error_iff, hread]
      simp
    · intro opened heq
      cases heq
  | some session =>
    have hread := Reply.payload?_eq_some.mp hsession
    rw [hread] at hrun
    refine ⟨opening, reading, (second.read (Answer.json (α := Environment))).map opened, hopening,
      fun id => (hreading id).1, ?_, ?_, ?_, ?_⟩
    · rw [hrun]
      exact Prod.ext rfl (hasked' session.id)
    · rw [← Reply.toOption_read_json]
      cases second.read (Answer.json (α := Environment)) <;> simp [Except.map, Except.toOption]
    · intro e
      have hfirst : ¬first.Fails Session e := fun hfails => by
        rw [Reply.read_json_eq_error_iff.mpr hfails] at hread
        cases hread
      rw [← Reply.read_json_eq_error_iff (α := Environment)]
      cases second.read (Answer.json (α := Environment)) <;> simp [Except.map, hfirst]
    · intro opened hresult
      cases hsecond : second.read (Answer.json (α := Environment)) with
      | error e =>
        rw [hsecond] at hresult
        cases hresult
      | ok response =>
        rw [hsecond] at hresult
        cases hresult
        obtain ⟨status, body, rfl, hshows⟩ := OpenedEnvironment.exists_shows hsecond
        refine ⟨status, body, rfl, hshows, fun text hbody hmark => ?_⟩
        rw [hshows.raw, hbody, Text.Utf8.lossy_encode hmark]

theorem openAndRead_exact_found :
    let text := "\x7b\"properties\":\x7b\"user\":\x7b\"value\":\"alice\"\x7d\x7d\x7d"
    let found : Reply := .whole 201 (Text.Utf8.encode "\x7b\"id\":\"s1\"\x7d")
    let read : Reply := .whole 200 (Text.Utf8.encode text)
    let network (first : Reply) : Network := ⟨fun _ => true, [first, read], []⟩
    let run (first : Reply) := (Client.openAndRead ⟨.standard⟩ "acme" "dev").run (network first)
    (∃ opening reading opened,
      run found = (.ok opened, (network found).after [opening, reading] []) ∧
      opening.method = .post ∧ reading.method = .get ∧
      reading.target = "/api/preview/environments/acme/dev/open/s1" ∧ opened.raw = text) ∧
    ∃ opening message diagnostics, run (.whole 404 []) =
      (.error (.service 404 message diagnostics ""),
        (network (.whole 404 [])).after [opening] [read]) := by
  intro text found read network run
  have hreached : ∀ first, Api.reached .standard (network first) = true := by
    intro first
    change Api.reached .standard ⟨fun _ => true, [], []⟩ = true
    decide +kernel
  constructor
  · obtain ⟨opening, reading, result, hopening, hreading, hrun, hok, -, hshows⟩ :=
      Client.openAndRead_exact ⟨.standard⟩ "acme" "dev" (hreached found) rfl
    have hsession : found.payload? (α := Session) = some ⟨"s1", none⟩ := by decide +kernel
    have hread : (read.payload? (α := Environment)).isSome = true := by decide +kernel
    obtain ⟨opened, rfl⟩ := hok.mpr ⟨by rw [hsession]; rfl, hread⟩
    obtain ⟨status, body, hreply, -, hraw⟩ := hshows opened rfl
    have hbody : body = Text.Utf8.encode text := (Reply.whole.inj hreply).2.symm
    rw [hsession] at hrun
    have hurl : Url.ofText? (Api.standard.url ["acme", "dev", "open", "s1"]) = some ⟨"https",
        "api.pulumi.com", ["api", "preview", "environments", "acme", "dev", "open", "s1"],
        none⟩ := by decide +kernel
    obtain ⟨url, hplace, htarget⟩ := (hreading "s1").target
    cases hurl.symm.trans hplace
    exact ⟨opening, reading "s1", opened, hrun, hopening.method, (hreading "s1").method, htarget,
      hraw text hbody (by decide)⟩
  · obtain ⟨opening, reading, result, -, -, hrun, -, herror, -⟩ :=
      Client.openAndRead_exact ⟨.standard⟩ "acme" "dev" (hreached (.whole 404 [])) rfl
    have hfailure : (⟨404, ""⟩ : Answer).failure = .service 404 "Not Found" [] "" := by
      decide +kernel
    have hfails : Reply.Fails Session (.whole 404 []) (.service 404 "Not Found" [] "") :=
      .refused rfl rfl hfailure
    cases (herror _).mpr (.inl hfails)
    exact ⟨opening, _, _, hrun⟩

end Client
end EnvClient

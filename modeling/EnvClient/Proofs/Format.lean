import EnvClient.Proofs.Command.Ending
import EnvClient.Proofs.Json.Indented
import EnvClient.Proofs.Opening
import EnvClient.Proofs.Property.Resolution
import EnvClient.Proofs.Reading
import EnvClient.Proofs.Yaml.Value

/-! The structured formats. Each of them is read back as the value that was written, and a run that
prints a value prints the same one in both, whatever environment or property it opens. -/
namespace EnvClient

open Http (Answer Exchange Network Reply)

-- What is resolved is nested no deeper than what it was resolved from.
theorem Json.Fits.resolve {j : Json} {depth : Nat} (h : j.Fits depth) : j.resolve.Fits depth := by
  induction j generalizing depth with
  | null => exact h
  | bool value => exact h
  | number value => exact h
  | string value => exact h
  | array items ih =>
    obtain ⟨below, rfl⟩ := h.succ_of_array
    rw [fits_array_succ] at h
    rw [resolve_array, fits_array_succ, List.forall_mem_map]
    exact fun item hmem => ih item hmem (h item hmem)
  | object members ih =>
    obtain ⟨below, rfl⟩ := h.succ_of_object
    obtain ⟨hsorted, hvalues⟩ := fits_object_succ.mp h
    by_cases hkey : Property.valueKey ∈ Members.names members
    · obtain ⟨payload, hpayload⟩ := Members.mem_names_iff.mp hkey
      have hmem := Members.mem_of_get? hpayload
      rw [resolve_of_payload hpayload]
      exact (ih _ hmem (hvalues _ hmem)).mono (Nat.le_succ below)
    · rw [resolve_of_no_payload hkey, fits_object_succ, Members.forall_mem_mapValues]
      exact ⟨hsorted.mapValues _, fun member hmem => ih member hmem (hvalues member hmem)⟩

theorem Property.fits_resolve_of_read {depth : Nat} {doc : Json.Doc} {p : Property}
    (h : Json.Reader.property depth doc = .ok p) : p.resolve.Fits depth := by
  obtain ⟨j, hj, rfl⟩ := Json.Result.map_eq_ok.mp h
  exact (Json.Doc.value_fits hj).resolve

theorem Record.fits_resolve_of_readOver {base : Json.Reader Record} {depth : Nat} {doc : Json.Doc}
    {record : Record} (h : readOver base depth doc = .ok record) :
    record.value.resolve.Fits depth := by
  obtain ⟨⟨value, secret, unknown, trace, _⟩, hrow, h⟩ := Json.Result.bind_eq_ok.mp h
  cases h
  obtain ⟨below, rfl, hvalue, -⟩ := Json.Fields.givesAt_read (nodup_names base) hrow
  rcases hvalue with habsent | ⟨doc, hread⟩
  · cases habsent
    exact Json.fits_null _
  · exact (Property.fits_resolve_of_read hread).mono (Nat.le_succ below)

theorem Record.fits_resolve_of_read {depth : Nat} {doc : Json.Doc} {record : Record}
    (h : read depth doc = .ok record) : record.value.resolve.Fits depth := by
  unfold read at h
  split at h
  · exact fits_resolve_of_readOver h
  · exact fits_resolve_of_readOver h

theorem NamedProperties.fits_resolve_of_read {depth : Nat} {doc : Json.Doc}
    {properties : NamedProperties} (h : read depth doc = .ok properties) :
    (Json.object properties.resolve).Fits depth := by
  unfold read Json.Reader.map at h
  split at h
  · cases depth with
    | zero => cases h
    | succ below =>
      obtain ⟨hsorted, hvalues⟩ := Json.Reader.members_yields
        (fun _ _ => Record.fits_resolve_of_read) Members.sorted_nil nofun h
      rw [resolve, Json.fits_object_succ, Members.forall_mem_mapValues]
      exact ⟨hsorted.mapValues _, hvalues⟩
  · exact absurd h Json.Doc.unexpected_ne_ok

theorem Environment.fits_shown_of_read {depth : Nat} {doc : Json.Doc} {environment : Environment}
    (h : read depth doc = .ok environment) :
    (NamedProperties.shown environment.properties true).Fits depth := by
  obtain ⟨⟨exprs, properties, schema, _⟩, hrow, h⟩ := Json.Result.bind_eq_ok.mp h
  cases h
  obtain ⟨below, rfl, -, hproperties, -⟩ := Json.Fields.givesAt_read (by decide) hrow
  cases properties with
  | none => exact Json.fits_null _
  | some properties =>
    obtain ⟨doc, hread⟩ := hproperties.exists_read
    exact (NamedProperties.fits_resolve_of_read hread).mono (Nat.le_succ below)

def Command.asked? (property : Option String) (r : Reply) : Option Json :=
  match property with
  | some _ => (r.payload? (α := Record)).map (·.value.resolve)
  | none => (r.payload? (α := Environment)).map fun environment =>
    NamedProperties.shown environment.properties true

/-- The value that opening an environment has for the replies that are heard: one that is in the
second of them, if the first opens a session without a complaint. -/
def Command.opened? (property : Option String) : List Reply → Option Json
  | first :: second :: _ => first.session?.bind fun _ => asked? property second
  | _ => none

namespace Command

variable {property : Option String} {r : Reply} {replies : List Reply} {v : Json}

theorem fits_asked? (h : asked? property r = some v) : v.Fits Json.maxDepth := by
  cases property with
  | some path =>
    obtain ⟨record, hrecord, rfl⟩ := Option.map_eq_some_iff.mp h
    obtain ⟨text, hdecode⟩ := Reply.decode_of_payload? hrecord
    exact Record.fits_resolve_of_read (Json.read_of_decode hdecode)
  | none =>
    obtain ⟨environment, henvironment, rfl⟩ := Option.map_eq_some_iff.mp h
    obtain ⟨text, hdecode⟩ := Reply.decode_of_payload? henvironment
    exact Environment.fits_shown_of_read (Json.read_of_decode hdecode)

theorem fits_opened? (h : opened? property replies = some v) : v.Fits Json.maxDepth := by
  unfold opened? at h
  split at h
  · obtain ⟨session, -, h⟩ := Option.bind_eq_some_iff.mp h
    exact fits_asked? h
  · cases h

end Command

namespace Ending

/-- Whichever structured format it is in, the end is to print the value that there is; without a
value it is the same in all of them, and no success. -/
def Presents (ending : Format → Ending) (value? : Option Json) : Prop :=
  (∀ v, value? = some v → ∀ f : Format, f.isStructured = true →
    ∀ fault, (ending f).run fault = pure (.printed (f.value v))) ∧
  (value? = none → ∃ e : Ending, e.isSuccess = false ∧
    ∀ f : Format, f.isStructured = true → ending f = e)

theorem Presents.congr {ending ending' : Format → Ending} {value? : Option Json}
    (h : Presents ending value?) (heq : ∀ f : Format, f.isStructured = true → ending' f = ending f) :
    Presents ending' value? := by
  refine ⟨fun v hv f hf fault => ?_, fun hnone => ?_⟩
  · rw [heq f hf]
    exact h.1 v hv f hf fault
  · obtain ⟨e, hfailed, hall⟩ := h.2 hnone
    exact ⟨e, hfailed, fun f hf => (heq f hf).trans (hall f hf)⟩

theorem run_of_isSuccess_eq_false {e : Ending} (h : e.isSuccess = false) (fault : TransportFault)
    (r : Resources) :
    ∃ result, (Outcome.ofResult result).output = "" ∧ (e.run fault).run r = (result, r) := by
  cases e with
  | done output errors => cases h
  | written properties options => cases h
  | _ => exact ⟨_, rfl, rfl⟩

theorem presents_none {e : Ending} (h : e.isSuccess = false) : Presents (fun _ => e) none :=
  ⟨fun _ hv => (by cases hv), fun _ => ⟨e, h, fun _ _ => rfl⟩⟩

theorem presents_value (v : Json) : Presents (fun f => .printed (f.value v)) (some v) := by
  refine ⟨fun v' hv f _ fault => ?_, fun hnone => by cases hnone⟩
  cases hv
  rfl

theorem presents_written (properties : Option NamedProperties) (pretend : Bool) :
    Presents (fun f => .written properties ⟨f, true, pretend⟩)
      (some (NamedProperties.shown properties true)) := by
  refine ⟨fun v hv f hf fault => ?_, fun hnone => by cases hnone⟩
  cases hv
  funext r
  have hwrite : NamedProperties.write properties ⟨f, true, pretend⟩ r.disk =
      (.ok (f.value (NamedProperties.shown properties true)), r.disk) := if_pos hf
  exact run_bind_ok (run_write hwrite) _

theorem presents_ask {α : Type} {op : Operation} {read : Reply → Except ClientError α}
    {next : Format → α → List Reply → Course} (value? : List Reply → Option Json)
    (hnil : value? [] = none)
    (herror : ∀ r e replies, read r = .error e → value? (r :: replies) = none)
    (hok : ∀ r a replies, read r = .ok a →
      Presents (fun f => (next f a replies).ending) (value? (r :: replies)))
    (replies : List Reply) :
    Presents (fun f => (Course.ask op read (next f) replies).ending) (value? replies) := by
  cases replies with
  | nil =>
    rw [hnil]
    exact presents_none (e := .unheard) rfl
  | cons r replies =>
    cases hr : read r with
    | error e =>
      simp only [Course.ask_error hr, herror r e replies hr]
      exact presents_none (e := .failed (.client e)) rfl
    | ok a =>
      simp only [Course.ask_ok hr]
      exact hok r a replies hr

end Ending

namespace Command

variable (organization environment : String)

theorem refusal?_of_isStructured {f : Format} (h : f.isStructured = true)
    (property : Option String) : f.refusal? property = none := by
  rw [Format.refusal?, h, Bool.not_true, Bool.and_false]
  rfl

theorem asked?_property (path : String) (r : Reply) : asked? (some path) r =
    ((r.read (Answer.json (α := Record))).map fun response =>
      (⟨response.data, response.data.value.resolve⟩ : ResolvedProperty)).toOption.map (·.value) := by
  rw [asked?, ← Reply.toOption_read_json]
  cases r.read (Answer.json (α := Record)) <;> rfl

theorem asked?_environment (r : Reply) : asked? none r =
    ((r.read (Answer.json (α := Environment))).map Client.opened).toOption.map
      fun opened => NamedProperties.shown opened.environment.properties true := by
  rw [asked?, ← Reply.toOption_read_json]
  cases r.read (Answer.json (α := Environment)) <;> rfl

theorem opened?_cons (property : Option String) (first : Reply) (rest : List Reply) :
    opened? property (first :: rest) =
      ((first.read (Answer.json (α := Session))).map (·.data)).toOption.bind fun session =>
        if (session.diagnostics.getD []).isEmpty then rest.head?.bind (asked? property)
        else none := by
  have hopened : opened? property (first :: rest) =
      first.session?.bind fun _ => rest.head?.bind (asked? property) := by
    cases rest with
    | nil => exact (Option.bind_fun_none _).symm
    | cons second rest => rfl
  rw [hopened, Reply.session?, ← Reply.toOption_read_json]
  cases (first.read (Answer.json (α := Session))).map (·.data) with
  | error e => rfl
  | ok session =>
    rw [Except.toOption, Option.filter_some, Option.bind_some]
    cases (session.diagnostics.getD []).isEmpty <;> rfl

theorem presents_session (property : Option String) (pretend : Bool) (session : Session)
    (replies : List Reply) :
    Ending.Presents
      (fun f => (sessionCourse organization environment property f pretend session replies).ending)
      (if (session.diagnostics.getD []).isEmpty then replies.head?.bind (asked? property)
        else none) := by
  unfold sessionCourse
  cases (session.diagnostics.getD []).isEmpty with
  | false => exact Ending.presents_none rfl
  | true =>
    cases property with
    | some path =>
      refine Ending.presents_ask (fun replies => replies.head?.bind (asked? (some path))) rfl
        (fun r e _ hr => ?_) (fun r resolved _ hr => ?_) replies
      · rw [List.head?_cons, Option.bind_some, asked?_property, hr]
        rfl
      · rw [List.head?_cons, Option.bind_some, asked?_property, hr]
        exact Ending.presents_value resolved.value
    | none =>
      refine Ending.presents_ask (fun replies => replies.head?.bind (asked? none)) rfl
        (fun r e _ hr => ?_) (fun r opened _ hr => ?_) replies
      · rw [List.head?_cons, Option.bind_some, asked?_environment, hr]
        rfl
      · rw [List.head?_cons, Option.bind_some, asked?_environment, hr]
        exact Ending.presents_written opened.environment.properties pretend

theorem presents_open (property : Option String) (pretend : Bool) (replies : List Reply) :
    Ending.Presents
      (fun f => (openCourse organization environment property f pretend replies).ending)
      (opened? property replies) := by
  have hpresents : Ending.Presents
      (fun f => (Course.ask (.openSession organization environment)
        (fun r => (r.read (Answer.json (α := Session))).map (·.data))
        (sessionCourse organization environment property f pretend) replies).ending)
      (opened? property replies) := by
    refine Ending.presents_ask (opened? property) rfl (fun r e rest hr => ?_)
      (fun r session rest hr => ?_) replies
    · rw [opened?_cons, hr]
      rfl
    · rw [opened?_cons, hr]
      exact presents_session organization environment property pretend session rest
  refine hpresents.congr fun f hf => ?_
  rw [openCourse_eq (refusal?_of_isStructured hf property)]

theorem operations_open_structured (property : Option String) (pretend : Bool)
    (replies : List Reply) {f : Format} (hf : f.isStructured = true) :
    (openCourse organization environment property f pretend replies).operations =
      (openCourse organization environment property .json pretend replies).operations := by
  let source : Source := ⟨[], fun _ => .error .missing⟩
  have hready : ∀ f : Format, f.isStructured = true →
      ¬(property.isSome = true ∧ (f = .dotenv ∨ f = .shell)) := by
    intro f hf
    rw [← refusal?_isSome, refusal?_of_isStructured hf]
    exact Bool.false_ne_true
  rw [operations_open source, operations_open source]
  exact (if_neg (hready f hf)).trans (if_neg (hready .json rfl)).symm

end Command

namespace Format

/-- The structured formats say the same. A value of at most as many levels as can be read is read
back from either of them just as it was, from YAML whether keys are taken by their texts or by
their values. Opening an environment, or a property of one, prints the value that there is in
whichever of them is asked for; where there is none, nothing is printed and all else is alike. -/
theorem structured_agree :
    (∀ v : Json, v.Sorted → v.nesting ≤ Json.maxDepth →
      ((∀ x : Binary64, Json.NodeOf (.number (.float x)) v → (Number.float x).ReadsBack) →
        Json.decode Json.Reader.json (json.value v) = .ok v) ∧
      ∀ byText, Yaml.readBy? byText (yaml.value v) = some v) ∧
    ∀ (client : Client) (organization environment : String) (property : Option String)
      (pretend : Bool) (r : Resources),
      let run (f : Format) :=
        (Command.runOpen client organization environment property f pretend).run r
      ∃ after : Resources,
        (∀ v, Command.opened? property (client.api.heard r.network) = some v →
          v.Sorted ∧ v.nesting ≤ Json.maxDepth ∧
            ∀ f : Format, f.isStructured = true → run f = (.ok (.printed (f.value v)), after)) ∧
        (Command.opened? property (client.api.heard r.network) = none →
          ∃ result, (Outcome.ofResult result).output = "" ∧
            ∀ f : Format, f.isStructured = true → run f = (result, after)) := by
  constructor
  · intro v hsorted hnesting
    have hfits : v.Fits Yaml.maxDepth := ⟨hsorted, Nat.le_trans hnesting (Nat.le_succ _)⟩
    refine ⟨fun hfloats => ?_, fun byText => Yaml.readBy?_print byText hfits⟩
    refine Json.decode_pretty (Json.Reader.recovers_json hsorted _) hnesting fun n hn => ?_
    cases n with
    | int value fits => exact Json.readsBack_int value fits
    | float x => exact hfloats x hn
  · intro client organization environment property pretend r run
    let after : Resources := { r with network :=
      (Command.openCourse organization environment property .json pretend
        (client.api.heard r.network)).operations.foldl client.api.asked r.network }
    have hrun : ∀ f : Format, f.isStructured = true → run f =
        ((Command.openCourse organization environment property f pretend
          (client.api.heard r.network)).ending.run (client.api.fault r.network)).run after := by
      intro f hf
      change (Command.runOpen client organization environment property f pretend).run r = _
      rw [Command.follows_open client.api organization environment property f pretend r,
        Command.operations_open_structured organization environment property pretend _ hf]
    obtain ⟨hsome, hnone⟩ := Command.presents_open organization environment property pretend
      (client.api.heard r.network)
    dsimp only at hsome hnone
    refine ⟨after, fun v hv => ?_, fun hv => ?_⟩
    · have hfits := Command.fits_opened? hv
      refine ⟨hfits.sorted, hfits.nesting_le, fun f hf => ?_⟩
      rw [hrun f hf, hsome v hv f hf]
      rfl
    · obtain ⟨e, hfailed, hending⟩ := hnone hv
      obtain ⟨result, hquiet, hresult⟩ :=
        Ending.run_of_isSuccess_eq_false hfailed (client.api.fault r.network) after
      refine ⟨result, hquiet, fun f hf => ?_⟩
      rw [hrun f hf, hending f hf]
      exact hresult

/-- A text of lines on its own, and one under a name that looks like a number, beside collections
in collections; a property that is found, and one that no reply comes for. -/
theorem structured_agree_awkward :
    let x : Binary64 := ⟨false, 0x18000000000000, 1022, by decide⟩
    let lines : Json := .string "\n a: b\n\n"
    let mixed : Json := .object [("", .array [.array [.array []], .object []]),
      ("1", .string "a\nb\n"), ("null", .string "null"), ("~", .number (.float x))]
    let replies := ["\x7b\"id\":\"s1\"\x7d", "\x7b\"value\":\x7b\"value\":[\"1\",null]\x7d\x7d"].map
      fun body => Reply.whole 200 (Text.Utf8.encode body)
    let run (replies : List Reply) (f : Format) :=
      (Command.runOpen ⟨.standard⟩ "acme" "dev" (some "key") f true).run
        ⟨⟨fun _ => true, replies, []⟩, ⟨[], fun _ => "", fun _ _ => .kept, 0⟩⟩
    (∀ v ∈ [lines, mixed], Json.decode Json.Reader.json (json.value v) = .ok v ∧
      ∀ byText, Yaml.readBy? byText (yaml.value v) = some v) ∧
    (∃ after, run replies json = (.ok (.printed "[\n  \"1\",\n  null\n]\n"), after) ∧
      run replies yaml = (.ok (.printed "- '1'\n- null\n"), after)) ∧
    ∃ result after, (Outcome.ofResult result).output = "" ∧
      run [] json = (result, after) ∧ run [] yaml = (result, after) := by
  intro x lines mixed replies run
  obtain ⟨hvalues, hruns⟩ := structured_agree
  refine ⟨?_, ?_, ?_⟩
  · have hx : (Number.float x).ReadsBack := by
      unfold Number.ReadsBack
      decide +kernel
    intro v hv
    have hshape : v.Sorted ∧ v.nesting ≤ Json.maxDepth := by
      revert v
      decide
    obtain ⟨hjson, hyaml⟩ := hvalues v hshape.1 hshape.2
    refine ⟨hjson fun y hy => ?_, hyaml⟩
    have heq : y = x := by
      rcases List.mem_cons.mp hv with rfl | hv
      · simp [lines] at hy
      · cases List.mem_singleton.mp hv
        simpa [mixed] using hy
    exact heq ▸ hx
  · obtain ⟨after, hsome, -⟩ := hruns ⟨.standard⟩ "acme" "dev" (some "key") true
      ⟨⟨fun _ => true, replies, []⟩, ⟨[], fun _ => "", fun _ _ => .kept, 0⟩⟩
    let v : Json := .array [.string "1", .null]
    have hjson : json.value v = "[\n  \"1\",\n  null\n]\n" := by decide +kernel
    have hyaml : yaml.value v = "- '1'\n- null\n" := by decide +kernel
    obtain ⟨-, -, hprinted⟩ := hsome v (by decide +kernel)
    exact ⟨after, hjson ▸ hprinted json rfl, hyaml ▸ hprinted yaml rfl⟩
  · obtain ⟨after, -, hnone⟩ := hruns ⟨.standard⟩ "acme" "dev" (some "key") true
      ⟨⟨fun _ => true, [], []⟩, ⟨[], fun _ => "", fun _ _ => .kept, 0⟩⟩
    obtain ⟨result, hquiet, hrun⟩ := hnone (by decide +kernel)
    exact ⟨result, after, hquiet, hrun json rfl, hrun yaml rfl⟩

end Format
end EnvClient

import EnvClient.Proofs.DefinitionText
import EnvClient.Proofs.Json.Recovery
import EnvClient.Proofs.Property.Codec

/-! Payloads written and read again. What is known of a payload because it was decoded is enough
for it to be decoded from its own text. -/
namespace EnvClient

open Json (Fields Reader member? optional array_ne_null bool_ne_null object_ne_null
  string_ne_null)
open Json.Reader (recovers_bool recovers_string recovers_int32 recovers_json recovers_list
  recovers_map)
open Json.Fields (recovers_read writes_nil writes_present writes_optional writes_optional_last)

theorem Position.recovers_toJson (depth : Nat) (p : Position) :
    Position.read.Recovers depth p.toJson p := by
  have hrow : (fields.read "Pos").Recovers depth p.toJson (p.line, p.column, p.byte, ()) :=
    recovers_read "Pos" (by decide) fun below _ =>
      writes_present (recovers_int32 below p.line) <|
      writes_present (recovers_int32 below p.column) <|
      writes_present (recovers_int32 below p.byte) <| writes_nil below
  exact hrow.bind rfl

theorem SourceRange.recovers_toJson (depth : Nat) (r : SourceRange) :
    SourceRange.read.Recovers depth r.toJson r := by
  have hrow : (fields.read "Range").Recovers depth r.toJson (r.environment, r.start, r.stop, ()) :=
    recovers_read "Range" (by decide) fun below _ =>
      writes_present (recovers_string below r.environment) <|
      writes_present (r.start.recovers_toJson below) <|
      writes_present (r.stop.recovers_toJson below) <| writes_nil below
  exact hrow.bind rfl

theorem Diagnostic.recovers_toJson (depth : Nat) (d : Diagnostic) :
    Diagnostic.read.Recovers depth d.toJson d := by
  have hrow : (fields.read "EnvironmentDiagnostic").Recovers depth d.toJson
      (d.summary, d.path, d.range, ()) :=
    recovers_read "EnvironmentDiagnostic" (by decide) fun below _ =>
      writes_present (recovers_string below d.summary) <|
      writes_optional (fun path _ => ⟨string_ne_null path, recovers_string below path⟩) <|
      writes_optional_last fun range _ => ⟨object_ne_null _, range.recovers_toJson below⟩
  exact hrow.bind rfl

theorem Diagnostic.recovers_listToJson (depth : Nat) (ds : List Diagnostic) :
    Diagnostic.readList.Recovers depth (Diagnostic.listToJson ds) ds :=
  recovers_list fun below _ d _ => d.recovers_toJson below

theorem Summary.recovers_toJson (depth : Nat) (s : Summary) :
    Summary.read.Recovers depth s.toJson s := by
  have hrow : (fields.read "OrgEnvironment").Recovers depth s.toJson
      (s.organization, s.project, s.name, s.created, s.modified, ()) :=
    recovers_read "OrgEnvironment" (by decide) fun below _ => by
      rw [List.append_assoc]
      exact writes_optional (fun organization _ =>
          ⟨string_ne_null _, recovers_string below organization⟩) <|
        writes_optional (fun project _ => ⟨string_ne_null _, recovers_string below project⟩) <|
        writes_present (recovers_string below s.name) <|
        writes_present (recovers_string below s.created) <|
        writes_present (recovers_string below s.modified) <| writes_nil below
  exact hrow.bind rfl

theorem Page.recovers_toJson (depth : Nat) (p : Page) : Page.read.Recovers depth p.toJson p := by
  have hrow : (fields.read "OrgEnvironments").Recovers depth p.toJson
      (p.environments, p.token, ()) :=
    recovers_read "OrgEnvironments" (by decide) fun below _ =>
      writes_present (recovers_list fun below' _ s _ => s.recovers_toJson below') <|
      writes_optional_last fun token _ => ⟨string_ne_null token, recovers_string below token⟩
  exact hrow.bind rfl

theorem Session.recovers_toJson (depth : Nat) (s : Session) :
    Session.read.Recovers depth s.toJson s := by
  have hrow : (fields.read "OpenEnvironment").Recovers depth s.toJson (s.id, s.diagnostics, ()) :=
    recovers_read "OpenEnvironment" (by decide) fun below _ =>
      writes_present (recovers_string below s.id) <|
      writes_optional_last fun ds _ => ⟨array_ne_null _, Diagnostic.recovers_listToJson below ds⟩
  exact hrow.bind rfl

theorem Report.recovers_toJson (depth : Nat) (r : Report) :
    Report.read.Recovers depth r.toJson r := by
  have hrow : (fields.read "EnvironmentDiagnostics").Recovers depth r.toJson (r.diagnostics, ()) :=
    recovers_read "EnvironmentDiagnostics" (by decide) fun below _ =>
      writes_optional_last fun ds _ => ⟨array_ne_null _, Diagnostic.recovers_listToJson below ds⟩
  exact hrow.bind rfl

theorem Property.read_canonical :
    Json.Reader.property.Yields fun p => p.WellFormed ∧ p.Canonical := by
  intro depth doc p h
  obtain ⟨j, hj, rfl⟩ := Json.Result.map_eq_ok.mp h
  have hsorted := Json.Doc.value_sorted hj
  exact ⟨ofJson_wellFormed hsorted, canonical_ofJson hsorted⟩

theorem Property.recovers_toJson (depth : Nat) {p : Property} (h : p.WellFormed ∧ p.Canonical) :
    Json.Reader.property.Recovers depth p.toJson p := by
  intro hnesting
  have hread := recovers_json (toJson_sorted h.1) depth hnesting
  have hback := (ofJson_toJson_iff h.1).mpr h.2
  change ofJson <$> (Json.Doc.ofJson p.toJson).value depth = _
  rw [show (Json.Doc.ofJson p.toJson).value depth = .ok p.toJson from hread]
  exact congrArg _ hback

namespace Record

/-- The value of a record, and of every record that it was merged over, is one that was read. -/
inductive Readable : Record → Prop where
  | mk {value : Property} {secret unknown : Option Bool} {trace : Option (Trace Record)}
      (readable : value.WellFormed ∧ value.Canonical)
      (base : ∀ t ∈ trace, ∀ b ∈ t.base, Readable b) : Readable (.mk value secret unknown trace)

theorem readOver_readable {base : Reader Record} (h : base.Yields Readable) :
    (readOver base).Yields Readable := by
  have htrace : (Trace.read base).Yields fun t => ∀ b ∈ t.base, b.Readable := by
    intro depth doc t hread
    obtain ⟨⟨definition, found, _⟩, hrow, hread⟩ := Json.Result.bind_eq_ok.mp hread
    cases hread
    exact (Fields.read_yields _ _ _ _ _ hrow).2.1.of_optional h
  intro depth doc record hread
  obtain ⟨⟨value, secret, unknown, trace, _⟩, hrow, hread⟩ := Json.Result.bind_eq_ok.mp hread
  cases hread
  obtain ⟨hvalue, -, -, hfound, -⟩ := Fields.read_yields _ _ _ _ _ hrow
  have hnull : Property.WellFormed .null ∧ Property.Canonical .null :=
    ⟨trivial, Property.canonical_of_isScalar rfl⟩
  exact .mk (hvalue.of_defaulted Property.read_canonical hnull) (hfound.of_optional htrace)

theorem read_readable : ∀ (depth : Nat) (doc : Json.Doc) (record : Record),
    read depth doc = .ok record → record.Readable
  | depth + 2, doc, record, h =>
    readOver_readable (fun _ doc base hbase => read_readable depth doc base hbase) _ _ _ h
  | 0, _, _, h => readOver_readable (fun _ _ _ hbase => by cases hbase) _ _ _ h
  | 1, _, _, h => readOver_readable (fun _ _ _ hbase => by cases hbase) _ _ _ h

theorem toJson_mk (value : Property) (secret unknown : Option Bool)
    (trace : Option (Trace Record)) :
    (mk value secret unknown trace).toJson =
      .object (("value", value.toJson) :: (member? "secret" .bool secret ++
        (member? "unknown" .bool unknown ++ member? "trace" Trace.toJson trace))) := by
  rcases trace with _ | ⟨definition, _ | base⟩ <;>
    simp [toJson, Trace.toJson, member?]

theorem toJson_ne_null (record : Record) : record.toJson ≠ .null := by
  obtain ⟨value, secret, unknown, trace⟩ := record
  rw [toJson_mk]
  exact object_ne_null _

theorem recovers_trace {base : Reader Record} {depth : Nat} {t : Trace Record}
    (h : ∀ below, depth = below + 1 → ∀ b ∈ t.base, base.Recovers below b.toJson b) :
    (Trace.read base).Recovers depth t.toJson t := by
  have hmembers : Trace.members t.definition (t.base.map toJson) =
      member? "def" SourceRange.toJson t.definition ++ member? "base" toJson t.base := by
    rw [Trace.members]
    cases t.base <;> rfl
  have hrow : ((Trace.fields base).read "Trace").Recovers depth t.toJson
      (t.definition, t.base, ()) := by
    rw [Trace.toJson, hmembers]
    exact recovers_read "Trace" (Trace.nodup_names base) fun below hbelow =>
      writes_optional (fun range _ => ⟨object_ne_null _, range.recovers_toJson below⟩) <|
      writes_optional_last fun b hb => ⟨b.toJson_ne_null, h below hbelow b hb⟩
  exact hrow.bind rfl

/-- A record is recovered if the one that it was merged over is, two levels down. -/
theorem recovers_readOver {base : Reader Record} {depth : Nat} {value : Property}
    {secret unknown : Option Bool} {trace : Option (Trace Record)}
    (hvalue : value.WellFormed ∧ value.Canonical)
    (hbase : ∀ below, depth = below + 2 → ∀ t ∈ trace, ∀ b ∈ t.base,
      base.Recovers below b.toJson b) :
    (readOver base).Recovers depth (mk value secret unknown trace).toJson
      (mk value secret unknown trace) := by
  have hrow : ((fields base).read "Value").Recovers depth (mk value secret unknown trace).toJson
      (value, secret, unknown, trace, ()) := by
    rw [toJson_mk]
    exact recovers_read "Value" (nodup_names base) fun below hbelow =>
      writes_present (value.recovers_toJson below hvalue) <|
      writes_optional (fun flag _ => ⟨bool_ne_null flag, recovers_bool below flag⟩) <|
      writes_optional (fun flag _ => ⟨bool_ne_null flag, recovers_bool below flag⟩) <|
      writes_optional_last fun t ht => ⟨object_ne_null _, recovers_trace fun below' hbelow' =>
        hbase below' (by omega) t ht⟩
  exact hrow.bind rfl

theorem recovers_toJson {record : Record} (h : record.Readable) (depth : Nat) :
    Reader.Recovers read depth record.toJson record := by
  induction h generalizing depth with
  | mk hvalue _ ih =>
    match depth with
    | 0 => exact recovers_readOver hvalue fun below hbelow => by cases hbelow
    | 1 => exact recovers_readOver hvalue fun below hbelow => by cases hbelow
    | depth + 2 =>
      refine recovers_readOver hvalue fun below hbelow t ht b hb => ?_
      cases hbelow
      exact ih t ht b hb depth

end Record

structure NamedProperties.Readable (properties : NamedProperties) : Prop where
  sorted : Members.Sorted properties
  records : ∀ entry ∈ properties, entry.2.Readable

theorem NamedProperties.read_readable : NamedProperties.read.Yields NamedProperties.Readable := by
  intro depth doc properties h
  obtain ⟨hsorted, hrecords⟩ := Json.Reader.map_yields Record.read_readable _ _ _ h
  exact ⟨hsorted, hrecords⟩

theorem NamedProperties.recovers_toJson {properties : NamedProperties} (h : properties.Readable)
    (depth : Nat) : NamedProperties.read.Recovers depth properties.toJson properties :=
  recovers_map h.sorted fun below _ entry hmem =>
    Record.recovers_toJson (h.records entry hmem) below

/-- What the parts of every evaluated environment satisfy that was read: a schema that was null
is none. -/
structure Evaluated (exprs : Option (Members Json)) (properties : Option NamedProperties)
    (schema : Option Json) : Prop where
  exprs : ∀ m ∈ exprs, (Json.object m).Sorted
  properties : ∀ named ∈ properties, named.Readable
  schema : ∀ j ∈ schema, j ≠ .null ∧ j.Sorted

theorem Json.Doc.eq_null_of_value {depth : Nat} {doc : Doc} (h : doc.value depth = .ok .null) :
    doc = .null := by
  cases doc with
  | null => rfl
  | bool value => cases h
  | number value => cases value <;> cases h
  | string value => cases value <;> cases h
  | array items =>
    change Reader.json depth (.array items) = _ at h
    rw [Reader.json_array] at h
    obtain ⟨_, -, h⟩ := Result.map_eq_ok.mp h
    cases h
  | object members =>
    change Reader.json depth (.object members) = _ at h
    rw [Reader.json_object] at h
    obtain ⟨_, -, h⟩ := Result.map_eq_ok.mp h
    cases h
  | broken fault => cases h

theorem Json.Reader.optionJson_yields :
    (Reader.option Reader.json).Yields fun found => ∀ j ∈ found, j ≠ .null ∧ j.Sorted := by
  intro depth doc found h j hmem
  refine ⟨?_, option_yields (fun _ _ _ => Doc.value_sorted) _ _ _ h j hmem⟩
  rintro rfl
  unfold Reader.option at h
  split at h
  · cases h
    cases hmem
  · rename_i hnull
    obtain ⟨value, hvalue, rfl⟩ := Result.map_eq_ok.mp h
    cases hmem
    exact hnull (Doc.eq_null_of_value hvalue)

namespace Evaluated

variable {exprs : Option (Members Json)} {properties : Option NamedProperties}
  {schema : Option Json}

theorem of_gives (hexprs : (optional "exprs" (Reader.map Reader.json)).Gives exprs)
    (hproperties : (optional "properties" NamedProperties.read).Gives properties)
    (hschema : (optional "schema" Reader.json).Gives schema) :
    Evaluated exprs properties schema where
  exprs := hexprs.of_optional fun depth doc m h =>
    Json.sorted_object.mpr (Reader.map_yields (fun _ _ _ => Json.Doc.value_sorted) depth doc m h)
  properties := hproperties.of_optional NamedProperties.read_readable
  schema := by
    rcases hschema with habsent | ⟨depth, doc, hread⟩
    · cases habsent
      exact nofun
    · exact Reader.optionJson_yields depth doc schema hread

theorem writes {αs : List Type} {rest : Fields αs} {row : Json.Row αs} {depth : Nat}
    {others : List (String × Json)} (h : Evaluated exprs properties schema)
    (hrest : rest.Writes depth row others) :
    (Fields.cons (optional "exprs" (Reader.map Reader.json)) <|
      .cons (optional "properties" NamedProperties.read) <|
      .cons (optional "schema" Reader.json) rest).Writes depth (exprs, properties, schema, row)
      (member? "exprs" objectJson exprs ++
        (member? "properties" NamedProperties.toJson properties ++
          (member? "schema" id schema ++ others))) :=
  writes_optional (fun m hm => ⟨object_ne_null m, Reader.recovers_mapJson (h.exprs m hm) depth⟩) <|
  writes_optional (fun named hnamed =>
    ⟨object_ne_null _, NamedProperties.recovers_toJson (h.properties named hnamed) depth⟩) <|
  writes_optional (fun j hj => ⟨(h.schema j hj).1, recovers_json (h.schema j hj).2 depth⟩) hrest

end Evaluated

theorem Environment.read_evaluated :
    Environment.read.Yields fun e => Evaluated e.exprs e.properties e.schema := by
  intro depth doc e h
  obtain ⟨⟨exprs, properties, schema, _⟩, hrow, h⟩ := Json.Result.bind_eq_ok.mp h
  cases h
  obtain ⟨hexprs, hproperties, hschema, -⟩ := Fields.read_yields _ _ _ _ _ hrow
  exact .of_gives hexprs hproperties hschema

theorem Environment.recovers_toJson {e : Environment}
    (h : Evaluated e.exprs e.properties e.schema) (depth : Nat) :
    Environment.read.Recovers depth e.toJson e := by
  have hrow : (fields.read "Environment").Recovers depth e.toJson
      (e.exprs, e.properties, e.schema, ()) := by
    rw [toJson, List.append_assoc, ← List.append_nil (member? "schema" id e.schema)]
    exact recovers_read "Environment" (by decide) fun below _ => h.writes (writes_nil below)
  exact hrow.bind rfl

theorem Check.read_evaluated :
    Check.read.Yields fun c => Evaluated c.exprs c.properties c.schema := by
  intro depth doc c h
  obtain ⟨⟨exprs, properties, schema, diagnostics, _⟩, hrow, h⟩ := Json.Result.bind_eq_ok.mp h
  cases h
  obtain ⟨hexprs, hproperties, hschema, -⟩ := Fields.read_yields _ _ _ _ _ hrow
  exact .of_gives hexprs hproperties hschema

theorem Check.recovers_toJson {c : Check} (h : Evaluated c.exprs c.properties c.schema)
    (depth : Nat) : Check.read.Recovers depth c.toJson c := by
  have hrow : (fields.read "CheckEnvironment").Recovers depth c.toJson
      (c.exprs, c.properties, c.schema, c.diagnostics, ()) := by
    rw [toJson, List.append_assoc, List.append_assoc]
    exact recovers_read "CheckEnvironment" (by decide) fun below _ => h.writes <|
      writes_optional_last fun ds _ => ⟨array_ne_null _, Diagnostic.recovers_listToJson below ds⟩
  exact hrow.bind rfl

namespace Values

variable {depth : Nat} {p : Partial}

theorem readMembers_section {s : Section} {found : Option (Members Json)}
    (hmet : p.section? s = none) (h : ∀ members ∈ found, (Json.object members).Fits depth)
    (rest : List (String × Json)) :
    readMembers depth p (.ofJson (member? s.name .object found ++ rest)) =
      readMembers depth (p.pass s found) (.ofJson rest) := by
  cases found with
  | none => rfl
  | some members =>
    have hfits := h members rfl
    have hread : Reader.option (Reader.map Reader.json) depth (.ofJson (.object members)) =
        .ok (some members) :=
      Reader.recovers_option (object_ne_null members)
        (Reader.recovers_mapJson hfits.sorted depth) hfits.nesting_le
    simp only [member?, List.singleton_append, Json.DocMembers.ofJson, readMembers,
      Section.ofName?_name, hmet, hread]
    rfl

theorem readMembers_others {members : Members Json}
    (hsorted : Members.Sorted (p.others ++ members))
    (hnames : ∀ name ∈ Members.names members, Section.ofName? name = none)
    (h : ∀ member ∈ members, member.2.Fits depth) :
    readMembers depth p (.ofJson members) = .ok { p with others := p.others ++ members } := by
  induction members generalizing p with
  | nil =>
    rw [Json.DocMembers.ofJson, readMembers, List.append_nil]
  | cons member rest ih =>
    obtain ⟨name, value⟩ := member
    obtain ⟨hname, hnames⟩ := List.forall_mem_cons.mp hnames
    obtain ⟨hvalue, h⟩ := List.forall_mem_cons.mp h
    have hread : (Json.Doc.ofJson value).value depth = .ok value :=
      recovers_json hvalue.sorted depth hvalue.nesting_le
    have happend : p.others ++ (name, value) :: rest = p.others ++ [(name, value)] ++ rest := by
      simp
    simp only [Json.DocMembers.ofJson, readMembers, hname, hread]
    change readMembers depth { p with others := Members.insert name value p.others } _ = _
    rw [hsorted.insert_append, happend]
    exact ih (happend ▸ hsorted) hnames h

theorem recovers_toJson {v : Values} (hsorted : v.Sorted) (hapart : v.Apart) (depth : Nat) :
    Values.read.Recovers depth v.toJson v := by
  intro hnesting
  cases depth with
  | zero => cases hnesting
  | succ depth =>
    have hfits := fits_iff.mpr ⟨hsorted, hnesting⟩
    obtain ⟨hnames, hothers⟩ := Json.fits_object_succ.mp hfits.others
    have hread : readMembers depth .empty (.ofJson v.toMembers) =
        .ok { v.passed with others := v.others } := by
      have hconfig := @readMembers_section depth .empty .config v.config rfl
        (hfits.sections .config)
      have henvironment := @readMembers_section depth (Partial.empty.pass .config v.config)
        .environment v.environment (by simp) (hfits.sections .environment)
      have hfiles := @readMembers_section depth
        ((Partial.empty.pass .config v.config).pass .environment v.environment) .files v.files
        (by simp) (hfits.sections .files)
      have hrest := @readMembers_others depth v.passed v.others (by simpa using hnames)
        hapart.ofName?_eq_none hothers
      rw [others_passed, List.nil_append] at hrest
      rw [toMembers, List.append_assoc, List.append_assoc, hconfig, henvironment, hfiles]
      exact hrest
    change Partial.toValues <$> readMembers depth .empty (.ofJson v.toMembers) = _
    rw [hread]
    exact congrArg Except.ok (toValues_passed v)

end Values

theorem Definition.recovers_toJson {d : Definition} (hsorted : d.Sorted) (hapart : d.Apart)
    (depth : Nat) : Definition.read.Recovers depth d.toJson d := by
  have hrow : (fields.read "EnvironmentDefinition").Recovers depth d.toJson
      (d.imports, d.values, ()) := by
    refine recovers_read "EnvironmentDefinition" (by decide) fun below _ => ?_
    refine Fields.writes_cons ?_ <| writes_optional_last fun values hvalues =>
      ⟨object_ne_null _,
        Values.recovers_toJson (hsorted values hvalues) (hapart values hvalues) below⟩
    cases d.imports with
    | nil => exact .absent rfl
    | cons name rest => exact .present (recovers_list fun below' _ s _ => recovers_string below' s)
  exact hrow.bind rfl

/-- Whatever is decoded from a text is decoded from the text that it is written as, and written
as that text again. -/
def Reencodes {α : Type} (read : Reader α) (toJson : α → Json) : Prop :=
  ∀ (text : String) (m : α), Json.decode read text = .ok m →
    (toJson m).nesting ≤ Json.maxDepth →
    (∀ x : Binary64, Json.NodeOf (.number (.float x)) (toJson m) → (Number.float x).ReadsBack) →
    Json.decode read (toJson m).compact = .ok m ∧
      ∀ m', Json.decode read (toJson m).compact = .ok m' → (toJson m').compact = (toJson m).compact

theorem reencodes_of_recovers {α : Type} {read : Reader α} {toJson : α → Json} {P : α → Prop}
    (hdecoded : ∀ text m, Json.decode read text = .ok m → P m)
    (h : ∀ m, P m → read.Recovers Json.maxDepth (toJson m) m) : Reencodes read toJson := by
  intro text m hdecode hnesting hfloats
  have hnumbers : ∀ n, Json.NodeOf (.number n) (toJson m) → n.ReadsBack := by
    intro n hn
    cases n with
    | int value fits => exact Json.readsBack_int value fits
    | float x => exact hfloats x hn
  have hagain := Json.decode_compact (h m (hdecoded text m hdecode)) hnesting hnumbers
  refine ⟨hagain, fun m' hm' => ?_⟩
  rw [hagain] at hm'
  cases hm'
  rfl

/-- Every payload is stable: what any of its texts holds is what its own text holds. -/
theorem payloads_reencode :
    Reencodes Record.read Record.toJson ∧ Reencodes Environment.read Environment.toJson ∧
      Reencodes Page.read Page.toJson ∧ Reencodes Session.read Session.toJson ∧
      Reencodes Report.read Report.toJson ∧ Reencodes Check.read Check.toJson ∧
      Reencodes Definition.read Definition.toJson := by
  refine ⟨?_, ?_, ?_, ?_, ?_, ?_, ?_⟩
  · exact reencodes_of_recovers (fun _ _ => Reader.decode_yields Record.read_readable)
      fun _ h => Record.recovers_toJson h _
  · exact reencodes_of_recovers (fun _ _ => Reader.decode_yields Environment.read_evaluated)
      fun _ h => Environment.recovers_toJson h _
  · exact reencodes_of_recovers (fun _ _ _ => trivial) fun p _ => p.recovers_toJson _
  · exact reencodes_of_recovers (fun _ _ _ => trivial) fun s _ => s.recovers_toJson _
  · exact reencodes_of_recovers (fun _ _ _ => trivial) fun r _ => r.recovers_toJson _
  · exact reencodes_of_recovers (fun _ _ => Reader.decode_yields Check.read_evaluated)
      fun _ h => Check.recovers_toJson h _
  · refine reencodes_of_recovers (fun _ _ => Definition.readable_of_decode) fun d h => ?_
    exact Definition.recovers_toJson (fun v hv => (Values.fits_iff.mp (h v hv).1).1)
      (fun v hv => (h v hv).2) _

/-- A record in positional form, merged over one with a member that is passed over. -/
theorem payloads_reencode_positional :
    let text := "[\x7b\"value\":1.5,\"b\":[null],\"a\":\x7b\x7d\x7d,null,true," ++
      "[null,\x7b\"value\":null,\"other\":1e999\x7d]]"
    let written := "\x7b\"value\":\x7b\"a\":\x7b\x7d,\"b\":[null],\"value\":1.5\x7d," ++
      "\"unknown\":true,\"trace\":\x7b\"base\":\x7b\"value\":null\x7d\x7d\x7d"
    ∃ m, Json.decode Record.read text = .ok m ∧ m.toJson.compact = written ∧
      Json.decode Record.read written = .ok m := by
  intro text written
  let x : Binary64 := ⟨false, 0x18000000000000, 1022, by decide⟩
  let j : Json := .object [
    ("value", .object [("a", .object []), ("b", .array [.null]), ("value", .number (.float x))]),
    ("unknown", .bool true), ("trace", .object [("base", .object [("value", .null)])])]
  have hdecode : Record.toJson <$> Json.decode Record.read text = .ok j := by decide +kernel
  have hwritten : j.compact = written := by decide +kernel
  have hx : (Number.float x).ReadsBack := by
    unfold Number.ReadsBack
    decide +kernel
  have hfloats : ∀ y : Binary64, Json.NodeOf (.number (.float y)) j →
      (Number.float y).ReadsBack := by
    intro y hy
    have heq : y = x := by simpa [j] using hy
    exact heq ▸ hx
  obtain ⟨m, hm, hj⟩ := Json.Result.map_eq_ok.mp hdecode
  obtain ⟨hrecord, -⟩ := payloads_reencode
  have hagain := (hrecord text m hm (hj ▸ by decide) (hj ▸ hfloats)).1
  rw [hj, hwritten] at hagain
  exact ⟨m, hm, hj ▸ hwritten, hagain⟩

end EnvClient

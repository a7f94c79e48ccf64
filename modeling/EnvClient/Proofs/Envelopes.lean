import EnvClient.Proofs.Property.Resolution
import EnvClient.Proofs.Reencoding

/-! Named properties and the envelopes that they are written as. The members of one object may be
read as records with known fields, or as plain values of which each is an envelope; resolved and
redacted, both come out alike. -/
namespace EnvClient

open Json (Doc DocMembers Reader Result Field Fields)

namespace Json

variable {α β : Type}

/-- Maps with the same names, whose values under a name were read from one place. -/
structure Reader.Alongside (read : Doc → Result α) (read' : Doc → Result β) (m : Members α)
    (m' : Members β) : Prop where
  names : ∀ name, name ∈ Members.names m ↔ name ∈ Members.names m'
  values : ∀ name a b, Members.get? name m = some a → Members.get? name m' = some b →
    ∃ doc, read doc = .ok a ∧ read' doc = .ok b

theorem Reader.Alongside.insert {read : Doc → Result α} {read' : Doc → Result β} {m : Members α}
    {m' : Members β} (h : Alongside read read' m m') {doc : Doc} {a : α} {b : β}
    (ha : read doc = .ok a) (hb : read' doc = .ok b) (name : String) :
    Alongside read read' (Members.insert name a m) (Members.insert name b m') := by
  constructor
  · intro other
    rw [Members.mem_names_insert, Members.mem_names_insert, h.names other]
  · intro other x y hx hy
    rw [Members.get?_insert] at hx hy
    by_cases hname : other = name
    · rw [if_pos hname, Option.some.injEq] at hx hy
      exact ⟨doc, hx ▸ ha, hy ▸ hb⟩
    · rw [if_neg hname] at hx hy
      exact h.values other x y hx hy

theorem Reader.alongside_members {read : Doc → Result α} {read' : Doc → Result β}
    {docs : DocMembers} {m values : Members α} {m' values' : Members β}
    (hm : Alongside read read' m m') (h : members read m docs = .ok values)
    (h' : members read' m' docs = .ok values') : Alongside read read' values values' := by
  fun_induction members read m docs generalizing m' with
  | case1 =>
    cases h
    cases h'
    exact hm
  | case2 => cases h
  | case3 m name doc rest ih =>
    obtain ⟨a, ha, h⟩ := Result.bind_eq_ok.mp h
    obtain ⟨b, hb, h'⟩ := Result.bind_eq_ok.mp h'
    exact ih a (hm.insert ha hb name) h h'
  | case4 => cases h

theorem Reader.get?_members {read : Doc → Result α} {name : String} {docs : DocMembers}
    {m values : Members α} (honce : docs.Once name) (h : members read m docs = .ok values) :
    match docs.find? name with
    | some doc => ∃ value, read doc = .ok value ∧ Members.get? name values = some value
    | none => Members.get? name values = Members.get? name m := by
  fun_induction members read m docs with
  | case1 =>
    cases h
    rfl
  | case2 => cases h
  | case3 m other doc rest ih =>
    obtain ⟨value, hvalue, h⟩ := Result.bind_eq_ok.mp h
    have hrest := ih value honce.2 h
    rw [DocMembers.find?]
    by_cases hname : other = name
    · rw [honce.1 hname, Members.get?_insert, if_pos hname.symm] at hrest
      rw [if_pos hname]
      exact ⟨value, hvalue, hrest⟩
    · rw [Members.get?_insert, if_neg (Ne.symm hname)] at hrest
      rw [if_neg hname]
      exact hrest
  | case4 => cases h

theorem Reader.bool?_of_option {depth : Nat} {doc : Doc} {flag : Option Bool} {j : Json}
    (hflag : option bool depth doc = .ok flag) (hj : doc.value depth = .ok j) :
    j.bool? = flag := by
  unfold option at hflag
  split at hflag
  · cases hflag
    cases hj
    rfl
  · obtain ⟨value, hread, rfl⟩ := Result.map_eq_ok.mp hflag
    unfold bool at hread
    split at hread
    · cases hread
      cases hj
      rfl
    · exact absurd hread Doc.unexpected_ne_ok

theorem Doc.eq_object_of_value {depth : Nat} {doc : Doc} {members : Members Json}
    (h : doc.value depth = .ok (.object members)) : ∃ below docs, depth = below + 1 ∧
      doc = .object docs ∧ Reader.members (Doc.value below) [] docs = .ok members := by
  cases doc with
  | object docs =>
    cases depth with
    | zero => cases h
    | succ below =>
      obtain ⟨values, hvalues, heq⟩ := Result.map_eq_ok.mp h
      cases heq
      exact ⟨below, docs, rfl, rfl, DocMembers.values_eq_members below docs [] ▸ hvalues⟩
  | array items =>
    cases depth with
    | zero => cases h
    | succ below =>
      obtain ⟨values, -, heq⟩ := Result.map_eq_ok.mp h
      cases heq
  | number value => cases value <;> cases h
  | string value => cases value <;> cases h
  | _ => cases h

end Json

namespace Record

theorem read_eq_readOver (depth : Nat) (doc : Doc) :
    ∃ base, read depth doc = readOver base depth doc := by
  unfold read
  split
  · exact ⟨_, rfl⟩
  · exact ⟨_, rfl⟩

theorem of_envelope {depth : Nat} {doc : Doc} {record : Record} {fields : Members Json}
    {payload : Json} (hread : read depth doc = .ok record)
    (hfields : doc.value depth = .ok (.object fields))
    (hpayload : Members.get? Property.valueKey fields = some payload) :
    record.value = Property.ofJson payload ∧
      record.isSecret =
        Property.flagged Property.secretKey (Members.erase Property.valueKey fields) := by
  obtain ⟨below, docs, rfl, rfl, hmembers⟩ := Json.Doc.eq_object_of_value hfields
  obtain ⟨base, hbase⟩ := read_eq_readOver (below + 1) (.object docs)
  rw [hbase] at hread
  obtain ⟨⟨value, secret, unknown, trace, _⟩, hrow, hread⟩ := Json.Result.bind_eq_ok.mp hread
  cases hread
  change (Record.fields base).readMembers below _ docs = _ at hrow
  have hnames := nodup_names base
  -- A name that is met once has one member to be found under, in the record as in the object.
  have honce : ∀ name ∈ (Record.fields base).names, docs.Once name := fun name hmem =>
    Json.Fields.once_readMembers hnames hmem hrow
  obtain ⟨hvalue, hsecret, -⟩ := Json.Fields.reads_readMembers hnames hrow
  have hpayloadRead := Json.Reader.get?_members
    (honce Property.valueKey (.head _)) hmembers
  have hsecretRead := Json.Reader.get?_members
    (honce Property.secretKey (.tail _ (.head _))) hmembers
  constructor
  · unfold Json.Field.Reads at hvalue
    change (match docs.find? Property.valueKey with | some _ => _ | none => _) at hvalue
    cases hfind : docs.find? Property.valueKey with
    | none =>
      rw [hfind, hpayload] at hpayloadRead
      cases hpayloadRead
    | some found =>
      rw [hfind] at hvalue hpayloadRead
      obtain ⟨j, hj, hget⟩ := hpayloadRead
      obtain ⟨read, hread, heq⟩ := Json.Result.map_eq_ok.mp hvalue.2
      rw [hpayload, Option.some.injEq] at hget
      have hsame : j = read := Except.ok.inj (hj.symm.trans hread)
      rw [hget, hsame]
      exact heq.symm
  · have hflag : (Members.get? Property.secretKey fields).bind Json.bool? = secret := by
      unfold Json.Field.Reads at hsecret
      change (match docs.find? Property.secretKey with | some _ => _ | none => _) at hsecret
      cases hfind : docs.find? Property.secretKey with
      | none =>
        rw [hfind] at hsecret hsecretRead
        rw [hsecretRead]
        exact Option.some.inj hsecret
      | some found =>
        rw [hfind] at hsecret hsecretRead
        obtain ⟨j, hj, hget⟩ := hsecretRead
        rw [hget]
        exact Json.Reader.bool?_of_option hsecret.2 hj
    rw [Property.flagged, Members.get?_erase_of_ne (by decide), hflag]
    rfl

end Record

namespace NamedProperties

theorem exists_alongside {depth : Nat} {doc : Doc} {members : Members Json}
    {properties : NamedProperties} (hread : read depth doc = .ok properties)
    (hjson : doc.value depth = .ok (.object members)) :
    ∃ below, Json.Reader.Alongside (Record.read below) (Json.Doc.value below) properties
      members := by
  obtain ⟨below, docs, rfl, rfl, hmembers⟩ := Json.Doc.eq_object_of_value hjson
  have hempty : Json.Reader.Alongside (Record.read below) (Json.Doc.value below) [] [] :=
    ⟨fun _ => Iff.rfl, fun _ _ _ h => by cases h⟩
  exact ⟨below, Json.Reader.alongside_members hempty hread hmembers⟩

theorem views_agree_of_value {depth : Nat} {doc : Doc} {members : Members Json}
    {properties : NamedProperties} (hread : read depth doc = .ok properties)
    (hjson : doc.value depth = .ok (.object members))
    (hvalue : Property.valueKey ∉ Members.names members)
    (hobjects : ∀ member ∈ members, ∃ fields, member.2 = .object fields ∧
      Property.valueKey ∈ Members.names fields) :
    Json.object properties.resolve = (Json.object members).resolve ∧
      Json.object properties.redact = (Property.ofJson (.object members)).redact := by
  obtain ⟨below, halong⟩ := exists_alongside hread hjson
  have hproperties : Members.Sorted properties := (read_wellFormed _ _ _ hread).sorted
  have hmembers : Members.Sorted members :=
    (Json.sorted_object.mp (Json.Doc.value_sorted hjson)).1
  have hrecord : ∀ name record j, Members.get? name properties = some record →
      Members.get? name members = some j → ∃ fields payload, j = .object fields ∧
        Members.get? Property.valueKey fields = some payload ∧
        record.value = Property.ofJson payload ∧ record.isSecret =
          Property.flagged Property.secretKey (Members.erase Property.valueKey fields) := by
    intro name record j hget hget'
    obtain ⟨doc, hdoc, hdoc'⟩ := halong.values name record j hget hget'
    obtain ⟨fields, rfl, hmem⟩ := hobjects _ (Members.mem_of_get? hget')
    obtain ⟨payload, hpayload⟩ := Members.mem_names_iff.mp hmem
    exact ⟨fields, payload, rfl, hpayload, Record.of_envelope hdoc hdoc' hpayload⟩
  constructor
  · rw [Json.resolve_of_no_payload hvalue]
    refine congrArg Json.object (hproperties.mapValues_eq hmembers halong.names ?_)
    intro name record j hget hget'
    obtain ⟨fields, payload, rfl, hpayload, hsame, -⟩ := hrecord name record j hget hget'
    rw [Json.resolve_of_payload hpayload, hsame]
    rfl
  · rw [Property.ofJson_object, Members.get?_eq_none_iff.mpr hvalue]
    unfold Property.redact
    rw [Property.plain_mapping, Members.mapValues_mapValues]
    refine congrArg Json.object (hproperties.mapValues_eq hmembers halong.names ?_)
    intro name record j hget hget'
    obtain ⟨fields, payload, rfl, hpayload, hsame, hsecret⟩ := hrecord name record j hget hget'
    rw [Property.ofJson_object, hpayload, hsecret, hsame]
    rfl

/-- Of an object whose members are envelopes the records and the plain values have the same
resolved and the same redacted values, whether both were read from one text or the records from
the object itself. -/
theorem envelopes_agree {members : Members Json} {properties : NamedProperties}
    (hread : (∃ text, Json.decode Json.Reader.json text = .ok (.object members) ∧
        Json.decode read text = .ok properties) ∨
      ((Json.object members).Sorted ∧ ∃ depth, (Json.object members).nesting ≤ depth ∧
        read depth (Json.Doc.ofJson (.object members)) = .ok properties))
    (hvalue : Property.valueKey ∉ Members.names members)
    (hobjects : ∀ member ∈ members, ∃ fields, member.2 = .object fields ∧
      Property.valueKey ∈ Members.names fields) :
    Json.object properties.resolve = (Json.object members).resolve ∧
      Json.object properties.redact = (Property.ofJson (.object members)).redact := by
  rcases hread with ⟨text, hjson, hproperties⟩ | ⟨hsorted, depth, hnesting, hproperties⟩
  · exact views_agree_of_value (Json.read_of_decode hproperties) (Json.read_of_decode hjson) hvalue
      hobjects
  · have hjson : Json.Doc.value depth (.ofJson (.object members)) = .ok (.object members) :=
      Json.Reader.recovers_json hsorted depth hnesting
    exact views_agree_of_value hproperties hjson hvalue hobjects

/-- Flags that are null or false, a secret payload and one that has a secret in it. -/
theorem envelopes_agree_flagged :
    let text :=
      "\x7b\"a\":\x7b\"value\":[1,\x7b\"value\":2,\"secret\":true\x7d],\"secret\":null\x7d," ++
      "\"b\":\x7b\"secret\":true,\"value\":\x7b\"c\":null\x7d\x7d," ++
      "\"d\":\x7b\"value\":\x7b\"value\":\"e\"\x7d,\"secret\":false,\"trace\":\x7b\x7d\x7d\x7d"
    ∃ properties, Json.decode read text = .ok properties ∧
      Json.object properties.resolve = .object [
        ("a", .array [.ofInt32 1, .ofInt32 2]), ("b", .object [("c", .null)]),
        ("d", .string "e")] ∧
      Json.object properties.redact = .object [
        ("a", .array [.ofInt32 1, .string "[secret]"]), ("b", .string "[secret]"),
        ("d", .string "e")] := by
  intro text
  let members : Members Json := [
    ("a", .object [("secret", .null), ("value", .array [.ofInt32 1,
      .object [("secret", .bool true), ("value", .ofInt32 2)]])]),
    ("b", .object [("secret", .bool true), ("value", .object [("c", .null)])]),
    ("d", .object [("secret", .bool false), ("trace", .object []),
      ("value", .object [("value", .string "e")])])]
  have hjson : Json.decode Json.Reader.json text = .ok (.object members) := by decide +kernel
  obtain ⟨properties, hdecode⟩ : ∃ properties, Json.decode read text = .ok properties := by
    have hshape : (Json.decode read text).toBool = true := by decide +kernel
    cases h : Json.decode read text with
    | error e => rw [h] at hshape; cases hshape
    | ok properties => exact ⟨properties, rfl⟩
  obtain ⟨hresolve, hredact⟩ := envelopes_agree (.inl ⟨text, hjson, hdecode⟩) (by decide)
    (by simp [members, Members.names, Property.valueKey])
  refine ⟨properties, hdecode, ?_, ?_⟩
  · rw [hresolve]
    decide +kernel
  · rw [hredact]
    decide +kernel

end NamedProperties
end EnvClient

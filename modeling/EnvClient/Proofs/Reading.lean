import EnvClient.Model.Payload
import EnvClient.Proofs.Nesting
import EnvClient.Proofs.Property.WellFormed

/-! What is known of a value because it was read. Every map that is read is sorted, and every
value of a record was read by its field or stands for a field that was absent. -/
namespace EnvClient

namespace Json

variable {α β : Type}

theorem Result.bind_eq_ok {x : Result α} {f : α → Result β} {value : β} :
    x >>= f = .ok value ↔ ∃ first, x = .ok first ∧ f first = .ok value := by
  cases x with
  | error e => exact ⟨nofun, nofun⟩
  | ok first => exact ⟨fun h => ⟨first, rfl, h⟩, fun ⟨_, heq, h⟩ => Except.ok.inj heq ▸ h⟩

theorem Result.map_eq_ok {x : Result α} {f : α → β} {value : β} :
    f <$> x = .ok value ↔ ∃ first, x = .ok first ∧ f first = value := by
  cases x with
  | error e => exact ⟨nofun, nofun⟩
  | ok first =>
    exact ⟨fun h => ⟨first, rfl, Except.ok.inj h⟩, fun ⟨_, heq, h⟩ => Except.ok.inj heq ▸ h ▸ rfl⟩

theorem Doc.unexpected_ne_ok {expected : Expected} {doc : Doc} {value : α} :
    doc.unexpected expected ≠ .ok value := by
  unfold Doc.unexpected
  split <;> exact nofun

mutual
theorem Doc.value_fits {depth : Nat} {j : Json} :
    ∀ {doc : Doc}, doc.value depth = .ok j → j.Fits depth
  | .null, h => by
    cases h
    exact fits_null depth
  | .bool value, h => by
    cases h
    exact fits_bool depth value
  | .number (some value), h => by
    cases h
    exact fits_number depth value
  | .string (some value), h => by
    cases h
    exact fits_string depth value
  | .array items, h => by
    cases depth with
    | zero => cases h
    | succ depth =>
      obtain ⟨values, hvalues, rfl⟩ := Result.map_eq_ok.mp h
      exact fits_array_succ.mpr (Items.values_fit hvalues)
  | .object members, h => by
    cases depth with
    | zero => cases h
    | succ depth =>
      obtain ⟨values, hvalues, rfl⟩ := Result.map_eq_ok.mp h
      exact DocMembers.values_fit (fits_empty depth) hvalues
theorem Items.values_fit {depth : Nat} {values : List Json} :
    ∀ {items : Items}, items.values depth = .ok values → ∀ value ∈ values, value.Fits depth
  | .done, h => by
    cases h
    exact nofun
  | .item doc rest, h => by
    obtain ⟨first, hfirst, h⟩ := Result.bind_eq_ok.mp h
    obtain ⟨others, hothers, h⟩ := Result.bind_eq_ok.mp h
    cases h
    exact List.forall_mem_cons.mpr ⟨Doc.value_fits hfirst, Items.values_fit hothers⟩
theorem DocMembers.values_fit {depth : Nat} {m values : Members Json} :
    ∀ {members : DocMembers}, (object m).Fits (depth + 1) → members.values depth m = .ok values →
      (object values).Fits (depth + 1)
  | .done, hm, h => by
    cases h
    exact hm
  | .member (some name) doc rest, hm, h => by
    obtain ⟨value, hvalue, h⟩ := Result.bind_eq_ok.mp h
    exact DocMembers.values_fit (hm.insert (Doc.value_fits hvalue) name) h
end

theorem Doc.value_sorted {depth : Nat} {j : Json} {doc : Doc} (h : doc.value depth = .ok j) :
    j.Sorted :=
  (Doc.value_fits h).sorted

def Reader.Yields (read : Reader α) (P : α → Prop) : Prop :=
  ∀ depth doc value, read depth doc = .ok value → P value

theorem Reader.option_yields {read : Reader α} {P : α → Prop} (h : read.Yields P) :
    (Reader.option read).Yields fun found => ∀ value ∈ found, P value := by
  intro depth doc found hread value hmem
  unfold option at hread
  split at hread
  · cases hread
    cases hmem
  · obtain ⟨first, hfirst, rfl⟩ := Result.map_eq_ok.mp hread
    cases hmem
    exact h _ _ _ hfirst

theorem Reader.members_yields {read : Doc → Result α} {P : α → Prop}
    (h : ∀ doc value, read doc = .ok value → P value) {docs : DocMembers} {m values : Members α}
    (hm : Members.Sorted m) (hvalues : ∀ entry ∈ m, P entry.2)
    (hread : Reader.members read m docs = .ok values) :
    Members.Sorted values ∧ ∀ entry ∈ values, P entry.2 := by
  fun_induction Reader.members read m docs with
  | case1 =>
    cases hread
    exact ⟨hm, hvalues⟩
  | case2 => cases hread
  | case3 m name doc rest ih =>
    obtain ⟨value, hvalue, hread⟩ := Result.bind_eq_ok.mp hread
    exact ih value (hm.insert name value) (Members.forall_mem_insert (h _ _ hvalue) hvalues) hread
  | case4 => cases hread

theorem Reader.map_yields {read : Reader α} {P : α → Prop} (h : read.Yields P) :
    (Reader.map read).Yields fun m => Members.Sorted m ∧ ∀ entry ∈ m, P entry.2 := by
  intro depth doc m hread
  unfold map at hread
  split at hread
  · cases depth with
    | zero => cases hread
    | succ depth => exact members_yields (h depth) Members.sorted_nil nofun hread
  · exact absurd hread Doc.unexpected_ne_ok

theorem read_of_decode {read : Reader α} {text : String} {value : α}
    (h : decode read text = .ok value) :
    read maxDepth (Doc.ofText text.toList).1 = .ok value := by
  unfold decode at h
  generalize Doc.ofText text.toList = parsed at h
  obtain ⟨doc, trailing⟩ := parsed
  obtain ⟨first, hfirst, h⟩ := Result.bind_eq_ok.mp h
  cases trailing with
  | true => cases h
  | false =>
    cases h
    exact hfirst

theorem Reader.decode_yields {read : Reader α} {P : α → Prop} (h : read.Yields P)
    {text : String} {value : α} (hread : decode read text = .ok value) : P value :=
  h _ _ _ (read_of_decode hread)

def Field.Gives (field : Field α) (value : α) : Prop :=
  field.absent = some value ∨ ∃ depth doc, field.read depth doc = .ok value

def Field.GivesAt (field : Field α) (depth : Nat) (value : α) : Prop :=
  field.absent = some value ∨ ∃ doc, field.read depth doc = .ok value

theorem Field.GivesAt.gives {field : Field α} {depth : Nat} {value : α}
    (h : field.GivesAt depth value) : field.Gives value :=
  h.imp_right fun hread => ⟨depth, hread⟩

theorem Field.Gives.of_optional {name : String} {read : Reader α} {P : α → Prop}
    (h : read.Yields P) {found : Option α} (hfound : (optional name read).Gives found) :
    ∀ value ∈ found, P value := by
  cases hfound with
  | inl habsent =>
    cases habsent
    exact nofun
  | inr hread =>
    obtain ⟨depth, doc, hread⟩ := hread
    exact Reader.option_yields h _ _ _ hread

theorem Field.GivesAt.exists_read {name : String} {read : Reader α} {depth : Nat} {value : α}
    (h : (optional name read).GivesAt depth (some value)) : ∃ doc, read depth doc = .ok value := by
  rcases h with habsent | ⟨doc, hread⟩
  · cases habsent
  · change Reader.option read depth doc = _ at hread
    unfold Reader.option at hread
    split at hread
    · cases hread
    · obtain ⟨found, hfound, heq⟩ := Result.map_eq_ok.mp hread
      cases heq
      exact ⟨_, hfound⟩

theorem Field.Gives.of_defaulted {name : String} {absent : α} {read : Reader α} {P : α → Prop}
    (h : read.Yields P) (habsent : P absent) {value : α}
    (hvalue : (defaulted name absent read).Gives value) : P value := by
  cases hvalue with
  | inl heq =>
    cases heq
    exact habsent
  | inr hread =>
    obtain ⟨depth, doc, hread⟩ := hread
    exact h _ _ _ hread

namespace Fields

variable {αs : List Type}

def Gives : {αs : List Type} → Fields αs → Row αs → Prop
  | _, .nil, _ => True
  | _, .cons field rest, (value, row) => field.Gives value ∧ rest.Gives row

def GivesAt (depth : Nat) : {αs : List Type} → Fields αs → Row αs → Prop
  | _, .nil, _ => True
  | _, .cons field rest, (value, row) => field.GivesAt depth value ∧ rest.GivesAt depth row

theorem GivesAt.gives {depth : Nat} {fields : Fields αs} {row : Row αs}
    (h : fields.GivesAt depth row) : fields.Gives row := by
  induction fields with
  | nil => trivial
  | cons field rest ih => exact ⟨h.1.gives, ih h.2⟩

def Met : {αs : List Type} → Fields αs → Slots αs → Prop
  | _, .nil, _ => True
  | _, .cons field rest, (slot, slots) =>
    (∀ value ∈ slot, ∃ depth doc, field.read depth doc = .ok value) ∧ rest.Met slots

theorem met_noSlots (fields : Fields αs) : fields.Met fields.noSlots := by
  induction fields with
  | nil => trivial
  | cons field rest ih => exact ⟨nofun, ih⟩

theorem store?_cons {α : Type} (depth : Nat) (name : String) (doc : Doc) (field : Field α)
    (rest : Fields αs) (slot : Option α) (slots : Slots αs) :
    (cons field rest).store? depth name doc (slot, slots) =
      if field.name = name then
        some (match slot with
          | some _ => .error (.mismatch (.duplicateField name))
          | none => do return (some (← field.read depth doc), slots))
      else (rest.store? depth name doc slots).map fun result => (slot, ·) <$> result := rfl

theorem met_store? {depth : Nat} {name : String} {doc : Doc} {fields : Fields αs}
    {slots slots' : Slots αs} (hslots : fields.Met slots)
    (h : fields.store? depth name doc slots = some (.ok slots')) : fields.Met slots' := by
  induction fields with
  | nil => cases h
  | cons field rest ih =>
    obtain ⟨slot, slots⟩ := slots
    rw [store?_cons] at h
    split at h
    · cases slot with
      | some value => cases h
      | none =>
        obtain ⟨value, hvalue, h⟩ := Result.bind_eq_ok.mp (Option.some.inj h)
        cases h
        refine ⟨fun _ hmem => ?_, hslots.2⟩
        cases hmem
        exact ⟨depth, doc, hvalue⟩
    · obtain ⟨result, hresult, h⟩ := Option.map_eq_some_iff.mp h
      obtain ⟨others, rfl, rfl⟩ := Result.map_eq_ok.mp h
      exact ⟨hslots.1, ih hslots.2 hresult⟩

theorem gives_complete {fields : Fields αs} {slots : Slots αs} {row : Row αs}
    (hslots : fields.Met slots) (h : fields.complete slots = .ok row) : fields.Gives row := by
  induction fields with
  | nil => trivial
  | cons field rest ih =>
    obtain ⟨slot, slots⟩ := slots
    rw [complete] at h
    split at h
    case h_2 => cases h
    case h_1 value hvalue =>
      obtain ⟨others, hothers, h⟩ := Result.bind_eq_ok.mp h
      cases h
      refine ⟨?_, ih hslots.2 hothers⟩
      cases slot with
      | none => exact Or.inl hvalue
      | some met =>
        cases hvalue
        exact Or.inr (hslots.1 _ rfl)

theorem gives_readMembers {fields : Fields αs} {depth : Nat} {slots : Slots αs} {row : Row αs}
    {docs : DocMembers} (hslots : fields.Met slots)
    (h : fields.readMembers depth slots docs = .ok row) : fields.Gives row := by
  fun_induction fields.readMembers depth slots docs with
  | case1 slots => exact gives_complete hslots h
  | case2 => cases h
  | case3 slots name doc rest slots' hstore ih => exact ih (met_store? hslots hstore) h
  | case4 => cases h
  | case5 slots name doc rest hstore ih =>
    obtain ⟨_, _, h⟩ := Result.bind_eq_ok.mp h
    exact ih hslots h
  | case6 => cases h

theorem readItems_done (record : String) (total depth index : Nat) {α : Type} (field : Field α)
    (rest : Fields αs) : (cons field rest).readItems record total depth index .done =
      match field.absent with
      | some value => do return (value, ← rest.readItems record total depth (index + 1) .done)
      | none => .error (.mismatch (.tooShort index record total)) := rfl

theorem givesAt_readItems {record : String} {total depth index : Nat} {fields : Fields αs}
    {row : Row αs} {docs : Items}
    (h : fields.readItems record total depth index docs = .ok row) :
    fields.GivesAt depth row := by
  induction fields generalizing index docs with
  | nil => trivial
  | cons field rest ih =>
    cases docs with
    | done =>
      rw [readItems_done] at h
      split at h
      case h_2 => cases h
      case h_1 value hvalue =>
        obtain ⟨others, hothers, h⟩ := Result.bind_eq_ok.mp h
        cases h
        exact ⟨Or.inl hvalue, ih hothers⟩
    | item doc docs =>
      obtain ⟨value, hvalue, h⟩ := Result.bind_eq_ok.mp h
      obtain ⟨others, hothers, h⟩ := Result.bind_eq_ok.mp h
      cases h
      exact ⟨Or.inr ⟨doc, hvalue⟩, ih hothers⟩
    | broken fault => cases h

theorem read_yields (record : String) (fields : Fields αs) :
    (fields.read record).Yields fields.Gives := by
  intro depth doc row h
  unfold read at h
  split at h
  · cases depth with
    | zero => cases h
    | succ depth => exact gives_readMembers fields.met_noSlots h
  · cases depth with
    | zero => cases h
    | succ depth => exact (givesAt_readItems h).gives
  · exact absurd h Doc.unexpected_ne_ok

end Fields
end Json

theorem Property.read_wellFormed : Json.Reader.property.Yields Property.WellFormed := by
  intro depth doc p h
  obtain ⟨j, hj, rfl⟩ := Json.Result.map_eq_ok.mp h
  exact ofJson_wellFormed (Json.Doc.value_sorted hj)

theorem Record.readOver_wellFormed (base : Json.Reader Record) :
    (Record.readOver base).Yields fun record => record.value.WellFormed := by
  intro depth doc record h
  obtain ⟨⟨value, secret, unknown, trace, _⟩, hrow, h⟩ := Json.Result.bind_eq_ok.mp h
  cases h
  have hvalue := (Json.Fields.read_yields _ _ _ _ _ hrow).1
  exact hvalue.of_defaulted Property.read_wellFormed (by trivial)

theorem Record.read_wellFormed :
    Json.Reader.Yields Record.read fun record => record.value.WellFormed := by
  intro depth doc record h
  unfold read at h
  split at h
  · exact readOver_wellFormed _ _ _ _ h
  · exact readOver_wellFormed _ _ _ _ h

theorem NamedProperties.read_wellFormed :
    NamedProperties.read.Yields NamedProperties.WellFormed := by
  intro depth doc properties h
  obtain ⟨hsorted, hvalues⟩ := Json.Reader.map_yields Record.read_wellFormed _ _ _ h
  exact ⟨hsorted, hvalues⟩

end EnvClient

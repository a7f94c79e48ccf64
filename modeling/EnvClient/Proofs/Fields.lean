import EnvClient.Proofs.Reading

/-! Which member of an object a field of a record is read from: the first of its name, and there
is no second one. Two records that share a field read it alike. The members that a record is read
from determine its values. -/
namespace EnvClient
namespace Json

def DocMembers.find? (name : String) : DocMembers → Option Doc
  | .member (some other) doc rest => if other = name then some doc else rest.find? name
  | _ => none

namespace Field

variable {α : Type}

/-- The value of a field by members that follow those from which its slot was filled. -/
def Reads (field : Field α) (depth : Nat) (docs : DocMembers) (slot : Option α) (value : α) :
    Prop :=
  match docs.find? field.name with
  | some doc => slot = none ∧ field.read depth doc = .ok value
  | none => slot.or field.absent = some value

theorem eq_of_reads {read : Reader α} {name : String} {depth : Nat} {docs : DocMembers}
    {value value' : Option α} (h : (optional name read).Reads depth docs none value)
    (h' : (optional name read).Reads depth docs none value') : value = value' := by
  unfold Reads at h h'
  cases hfind : docs.find? (optional name read).name with
  | none =>
    rw [hfind] at h h'
    exact Option.some.inj (h.symm.trans h')
  | some doc =>
    rw [hfind] at h h'
    exact Except.ok.inj (h.2.symm.trans h'.2)

end Field

namespace Fields

variable {αs : List Type}

def names : {αs : List Type} → Fields αs → List String
  | _, .nil => []
  | _, .cons field rest => field.name :: rest.names

/-- Every value of the row is the one that its field has by the members. -/
def Reads (depth : Nat) (docs : DocMembers) :
    {αs : List Type} → Fields αs → Slots αs → Row αs → Prop
  | _, .nil, _, _ => True
  | _, .cons field rest, (slot, slots), (value, row) =>
    field.Reads depth docs slot value ∧ rest.Reads depth docs slots row

theorem find?_member_of_ne {name other : String} (h : other ≠ name) (doc : Doc)
    (rest : DocMembers) : (DocMembers.member (some other) doc rest).find? name = rest.find? name := by
  rw [DocMembers.find?, if_neg h]

theorem reads_member_iff {depth : Nat} {name : String} {doc : Doc} {docs : DocMembers}
    {fields : Fields αs} {slots : Slots αs} {row : Row αs} (hname : name ∉ fields.names) :
    fields.Reads depth (.member (some name) doc docs) slots row ↔
      fields.Reads depth docs slots row := by
  induction fields with
  | nil => exact Iff.rfl
  | cons field rest ih =>
    obtain ⟨slot, slots⟩ := slots
    obtain ⟨value, row⟩ := row
    obtain ⟨hne, hrest⟩ := not_or.mp (mt List.mem_cons.mpr hname)
    rw [Reads, Reads, ih hrest, Field.Reads, Field.Reads, find?_member_of_ne hne]

theorem store?_eq_none_iff {depth : Nat} {name : String} {doc : Doc} {fields : Fields αs}
    {slots : Slots αs} : fields.store? depth name doc slots = none ↔ name ∉ fields.names := by
  induction fields with
  | nil => exact iff_of_true rfl List.not_mem_nil
  | cons field rest ih =>
    obtain ⟨slot, slots⟩ := slots
    rw [store?_cons, names, List.mem_cons, not_or]
    split
    · rename_i hname
      exact iff_of_false nofun fun h => h.1 hname.symm
    · rename_i hne
      exact Option.map_eq_none_iff.trans (ih.trans (and_iff_right (Ne.symm hne)).symm)

theorem mem_names_of_store? {depth : Nat} {name : String} {doc : Doc} {fields : Fields αs}
    {slots : Slots αs} {result : Result (Slots αs)}
    (h : fields.store? depth name doc slots = some result) : name ∈ fields.names := by
  refine Decidable.byContradiction fun hname => ?_
  rw [store?_eq_none_iff.mpr hname] at h
  cases h

theorem reads_of_store? {depth : Nat} {name : String} {doc : Doc} {docs : DocMembers}
    {fields : Fields αs} {slots slots' : Slots αs} {row : Row αs} (hnames : fields.names.Nodup)
    (hstore : fields.store? depth name doc slots = some (.ok slots'))
    (h : fields.Reads depth docs slots' row) :
    fields.Reads depth (.member (some name) doc docs) slots row := by
  induction fields with
  | nil => trivial
  | cons field rest ih =>
    obtain ⟨slot, slots⟩ := slots
    obtain ⟨value, row⟩ := row
    obtain ⟨hfresh, hnames⟩ := List.nodup_cons.mp hnames
    rw [store?_cons] at hstore
    split at hstore
    · rename_i hname
      cases slot with
      | some met => cases hstore
      | none =>
        obtain ⟨met, hmet, hstore⟩ := Result.bind_eq_ok.mp (Option.some.inj hstore)
        cases hstore
        refine ⟨?_, (reads_member_iff (hname ▸ hfresh)).mpr h.2⟩
        have hfield := h.1
        rw [Field.Reads] at hfield ⊢
        rw [DocMembers.find?, if_pos hname.symm]
        split at hfield
        · cases hfield.1
        · cases hfield
          exact ⟨rfl, hmet⟩
    · rename_i hne
      obtain ⟨result, hresult, hstore⟩ := Option.map_eq_some_iff.mp hstore
      obtain ⟨others, rfl, rfl⟩ := Result.map_eq_ok.mp hstore
      refine ⟨?_, ih hnames hresult h.2⟩
      have hfield := h.1
      rw [Field.Reads] at hfield ⊢
      rwa [find?_member_of_ne (Ne.symm hne)]

theorem reads_complete {depth : Nat} {fields : Fields αs} {slots : Slots αs} {row : Row αs}
    (h : fields.complete slots = .ok row) : fields.Reads depth .done slots row := by
  induction fields with
  | nil => trivial
  | cons field rest ih =>
    obtain ⟨slot, slots⟩ := slots
    rw [complete] at h
    split at h
    case h_2 => cases h
    case h_1 value hvalue =>
      obtain ⟨others, hothers, h⟩ := Result.bind_eq_ok.mp h
      cases h
      exact ⟨hvalue, ih hothers⟩

theorem reads_readMembers {fields : Fields αs} (hnames : fields.names.Nodup) {depth : Nat}
    {slots : Slots αs} {row : Row αs} {docs : DocMembers}
    (h : fields.readMembers depth slots docs = .ok row) : fields.Reads depth docs slots row := by
  fun_induction fields.readMembers depth slots docs with
  | case1 slots => exact reads_complete h
  | case2 => cases h
  | case3 slots name doc rest slots' hstore ih => exact reads_of_store? hnames hstore (ih h)
  | case4 => cases h
  | case5 slots name doc rest hstore ih =>
    obtain ⟨_, _, h⟩ := Result.bind_eq_ok.mp h
    exact (reads_member_iff (store?_eq_none_iff.mp hstore)).mpr (ih h)
  | case6 => cases h

theorem find?_eq_none_of_store? {depth : Nat} {name : String} {doc : Doc} {docs : DocMembers}
    {fields : Fields αs} {slots slots' : Slots αs} {row : Row αs}
    (hstore : fields.store? depth name doc slots = some (.ok slots'))
    (h : fields.Reads depth docs slots' row) : docs.find? name = none := by
  induction fields with
  | nil => cases hstore
  | cons field rest ih =>
    obtain ⟨slot, slots⟩ := slots
    obtain ⟨value, row⟩ := row
    rw [store?_cons] at hstore
    split at hstore
    · rename_i hname
      cases slot with
      | some met => cases hstore
      | none =>
        obtain ⟨met, -, hstore⟩ := Result.bind_eq_ok.mp (Option.some.inj hstore)
        cases hstore
        have hfield := h.1
        rw [Field.Reads, hname] at hfield
        split at hfield
        · cases hfield.1
        · assumption
    · obtain ⟨result, hresult, hstore⟩ := Option.map_eq_some_iff.mp hstore
      obtain ⟨others, rfl, rfl⟩ := Result.map_eq_ok.mp hstore
      exact ih hresult h.2

end Fields

def DocMembers.Once (name : String) : DocMembers → Prop
  | .member (some other) _ rest => (other = name → rest.find? name = none) ∧ rest.Once name
  | _ => True

namespace Fields

theorem once_readMembers {fields : Fields αs} (hnames : fields.names.Nodup) {name : String}
    (hmem : name ∈ fields.names) {depth : Nat} {slots : Slots αs} {row : Row αs}
    {docs : DocMembers} (h : fields.readMembers depth slots docs = .ok row) : docs.Once name := by
  fun_induction fields.readMembers depth slots docs with
  | case1 => trivial
  | case2 => cases h
  | case3 slots other doc rest slots' hstore ih =>
    refine ⟨fun heq => ?_, ih h⟩
    exact heq ▸ find?_eq_none_of_store? hstore (reads_readMembers hnames h)
  | case4 => cases h
  | case5 slots other doc rest hstore ih =>
    obtain ⟨_, _, h⟩ := Result.bind_eq_ok.mp h
    exact ⟨fun heq => absurd (heq ▸ hmem) (store?_eq_none_iff.mp hstore), ih h⟩
  | case6 => cases h

theorem complete_of_reads {depth : Nat} {fields : Fields αs} {slots : Slots αs} {row : Row αs}
    (h : fields.Reads depth .done slots row) : fields.complete slots = .ok row := by
  induction fields with
  | nil => rfl
  | cons field rest ih =>
    obtain ⟨slot, slots⟩ := slots
    obtain ⟨value, row⟩ := row
    have hvalue : slot.or field.absent = some value := h.1
    rw [complete, hvalue]
    change (rest.complete slots >>= _) = _
    rw [ih h.2]
    rfl

theorem store?_of_reads {depth : Nat} {name : String} {doc : Doc} {docs : DocMembers}
    {fields : Fields αs} {slots : Slots αs} {row : Row αs} (hnames : fields.names.Nodup)
    (hmem : name ∈ fields.names) (hlast : docs.find? name = none)
    (h : fields.Reads depth (.member (some name) doc docs) slots row) :
    ∃ slots', fields.store? depth name doc slots = some (.ok slots') ∧
      fields.Reads depth docs slots' row := by
  induction fields with
  | nil => cases hmem
  | cons field rest ih =>
    obtain ⟨slot, slots⟩ := slots
    obtain ⟨value, row⟩ := row
    obtain ⟨hfresh, hnames⟩ := List.nodup_cons.mp hnames
    obtain ⟨hfield, hrest⟩ := h
    rw [Field.Reads, DocMembers.find?] at hfield
    rw [store?_cons]
    by_cases hname : field.name = name
    · rw [if_pos hname.symm] at hfield
      obtain ⟨rfl, hread⟩ := hfield
      refine ⟨(some value, slots), ?_, ?_, (reads_member_iff (hname ▸ hfresh)).mp hrest⟩
      · rw [if_pos hname, hread]
        rfl
      · rw [Field.Reads, hname, hlast]
        rfl
    · rw [if_neg (Ne.symm hname)] at hfield
      have hbelow : name ∈ rest.names := (List.mem_cons.mp hmem).resolve_left (Ne.symm hname)
      obtain ⟨slots', hstore, hreads⟩ := ih hnames hbelow hrest
      refine ⟨(slot, slots'), ?_, hfield, hreads⟩
      rw [if_neg hname, hstore]
      rfl

end Fields

/-- Members with names, of which those asked for come once and the others can be passed over. -/
def DocMembers.Passable (names : List String) : DocMembers → Prop
  | .done => True
  | .member (some name) doc rest =>
    (name ∈ names → rest.find? name = none) ∧ (name ∉ names → doc.skip = .ok ()) ∧
      rest.Passable names
  | _ => False

namespace Fields

theorem readMembers_of_reads {fields : Fields αs} (hnames : fields.names.Nodup) {depth : Nat}
    {slots : Slots αs} {row : Row αs} {docs : DocMembers} (hpass : docs.Passable fields.names)
    (h : fields.Reads depth docs slots row) : fields.readMembers depth slots docs = .ok row := by
  fun_induction fields.readMembers depth slots docs with
  | case1 slots => exact complete_of_reads h
  | case2 => cases hpass
  | case3 slots name doc rest slots' hstore ih =>
    obtain ⟨hlast, -, hpass⟩ := hpass
    have hmem := mem_names_of_store? hstore
    obtain ⟨met, hmet, hreads⟩ := store?_of_reads hnames hmem (hlast hmem) h
    rw [hstore] at hmet
    cases hmet
    exact ih hpass hreads
  | case4 slots name doc rest e hstore =>
    have hmem := mem_names_of_store? hstore
    obtain ⟨met, hmet, -⟩ := store?_of_reads hnames hmem (hpass.1 hmem) h
    rw [hstore] at hmet
    cases hmet
  | case5 slots name doc rest hstore ih =>
    obtain ⟨-, hskip, hpass⟩ := hpass
    have hname := store?_eq_none_iff.mp hstore
    rw [hskip hname]
    exact ih hpass ((reads_member_iff hname).mp h)
  | case6 => cases hpass

end Fields

def Items.get? : Nat → Items → Option Doc
  | 0, .item doc _ => some doc
  | place + 1, .item _ rest => rest.get? place
  | _, _ => none

theorem Items.get?_done (place : Nat) : Items.done.get? place = none := by cases place <;> rfl

/-- What there is for a field of a record: of an object the first member of its name, of an array
the item in its place. -/
def Doc.part? (name : String) (place : Nat) : Doc → Option Doc
  | .object members => members.find? name
  | .array items => items.get? place
  | _ => none

def Field.ReadsPart {α : Type} (field : Field α) (depth : Nat) (part : Option Doc) (value : α) :
    Prop :=
  match part with
  | some doc => field.read depth doc = .ok value
  | none => field.absent = some value

theorem Field.ReadsPart.eq_none_iff {α : Type} {read : Reader α} {name : String} {depth : Nat}
    {part : Option Doc} {value : Option α} (h : (optional name read).ReadsPart depth part value) :
    value = none ↔ part = none ∨ part = some .null := by
  cases part with
  | none => exact iff_of_true (Option.some.inj h).symm (.inl rfl)
  | some doc =>
    have hread : Reader.option read depth doc = .ok value := h
    unfold Reader.option at hread
    split at hread
    · cases hread
      exact iff_of_true rfl (.inr rfl)
    · rename_i hnull
      obtain ⟨first, -, rfl⟩ := Result.map_eq_ok.mp hread
      exact iff_of_false nofun fun hpart => hpart.elim nofun fun heq =>
        hnull (Option.some.inj heq)

namespace Fields

def ReadsParts (depth : Nat) (part? : String → Nat → Option Doc) :
    (place : Nat) → {αs : List Type} → Fields αs → Row αs → Prop
  | _, _, .nil, _ => True
  | place, _, .cons field rest, (value, row) =>
    field.ReadsPart depth (part? field.name place) value ∧
      rest.ReadsParts depth part? (place + 1) row

theorem readsParts_of_reads {depth : Nat} {docs : DocMembers} {fields : Fields αs} {row : Row αs}
    (h : fields.Reads depth docs fields.noSlots row) (place : Nat) :
    fields.ReadsParts depth (fun name _ => docs.find? name) place row := by
  induction fields generalizing place with
  | nil => trivial
  | cons field rest ih =>
    obtain ⟨value, row⟩ := row
    refine ⟨?_, ih h.2 (place + 1)⟩
    have hfield := h.1
    rw [Field.Reads] at hfield
    change field.ReadsPart depth (docs.find? field.name) value
    cases hfind : docs.find? field.name with
    | some doc =>
      rw [hfind] at hfield
      exact hfield.2
    | none =>
      rw [hfind] at hfield
      exact hfield

theorem readsParts_readItems {record : String} {total depth place : Nat} {fields : Fields αs}
    {row : Row αs} {all docs : Items} (hall : ∀ i, all.get? (place + i) = docs.get? i)
    (h : fields.readItems record total depth place docs = .ok row) :
    fields.ReadsParts depth (fun _ i => all.get? i) place row := by
  induction fields generalizing place docs with
  | nil => trivial
  | cons field rest ih =>
    have hfirst : all.get? place = docs.get? 0 := hall 0
    have hrest : ∀ i, all.get? (place + 1 + i) = docs.get? (i + 1) := fun i => by
      rw [Nat.add_assoc, Nat.add_comm 1, hall]
    cases docs with
    | done =>
      rw [readItems_done] at h
      split at h
      case h_2 => cases h
      case h_1 value hvalue =>
        obtain ⟨others, hothers, h⟩ := Result.bind_eq_ok.mp h
        cases h
        refine ⟨?_, ih (fun i => (hrest i).trans (Items.get?_done i).symm) hothers⟩
        change field.ReadsPart depth (all.get? place) value
        rw [hfirst]
        exact hvalue
    | item doc docs =>
      obtain ⟨value, hvalue, h⟩ := Result.bind_eq_ok.mp h
      obtain ⟨others, hothers, h⟩ := Result.bind_eq_ok.mp h
      cases h
      refine ⟨?_, ih hrest hothers⟩
      change field.ReadsPart depth (all.get? place) value
      rw [hfirst]
      exact hvalue
    | broken fault => cases h

theorem readsParts_read {record : String} {fields : Fields αs} (hnames : fields.names.Nodup)
    {depth : Nat} {doc : Doc} {row : Row αs} (h : fields.read record depth doc = .ok row) :
    ∃ below, depth = below + 1 ∧ fields.ReadsParts below (doc.part? · ·) 0 row := by
  unfold read at h
  split at h
  · cases depth with
    | zero => cases h
    | succ below => exact ⟨below, rfl, readsParts_of_reads (reads_readMembers hnames h) 0⟩
  · cases depth with
    | zero => cases h
    | succ below =>
      refine ⟨below, rfl, readsParts_readItems (fun i => ?_) h⟩
      rw [Nat.zero_add]
  · exact absurd h Doc.unexpected_ne_ok

theorem givesAt_of_readsParts {depth place : Nat} {part? : String → Nat → Option Doc}
    {fields : Fields αs} {row : Row αs} (h : fields.ReadsParts depth part? place row) :
    fields.GivesAt depth row := by
  induction fields generalizing place with
  | nil => trivial
  | cons field rest ih =>
    obtain ⟨value, row⟩ := row
    refine ⟨?_, ih h.2⟩
    have hfield := h.1
    unfold Field.ReadsPart at hfield
    split at hfield
    · exact .inr ⟨_, hfield⟩
    · exact .inl hfield

theorem givesAt_read {record : String} {fields : Fields αs} (hnames : fields.names.Nodup)
    {depth : Nat} {doc : Doc} {row : Row αs} (h : fields.read record depth doc = .ok row) :
    ∃ below, depth = below + 1 ∧ fields.GivesAt below row := by
  obtain ⟨below, hdepth, hparts⟩ := readsParts_read hnames h
  exact ⟨below, hdepth, givesAt_of_readsParts hparts⟩

end Fields
end Json

theorem Trace.nodup_names {ρ : Type} (base : Json.Reader ρ) :
    (Trace.fields base).names.Nodup := by
  change ["def", "base"].Nodup
  decide

theorem Record.nodup_names (base : Json.Reader Record) : (fields base).names.Nodup := by
  change ["value", "secret", "unknown", "trace"].Nodup
  decide

end EnvClient

import EnvClient.Proofs.Checking
import EnvClient.Proofs.Json.Rearrangement
import EnvClient.Proofs.Json.Recovery
import Mathlib.Data.List.Nodup
import Mathlib.Data.List.Perm.Basic

/-! What rearranging a value does to reading it. A reader conforms to a schema if what it reads can
be passed over, and if it gives the same value when that is rearranged; readers of lists, maps and
records do so if those of their parts do. -/
namespace EnvClient.Json

variable {κ α β : Type}

/-- A value without two members of one name in an object, and a rearrangement of it without a
fault. -/
structure Doc.Restated (schema : Schema κ) (form : Form κ) (doc doc' : Doc) : Prop where
  distinct : doc.Distinct
  rearranged : doc.Rearranged schema form doc'
  skip : doc'.skip = .ok ()

/-- What is read has no fault, and is read as the same value when it is rearranged. -/
structure Conforms (schema : Schema κ) (form : Form κ) (read : Doc → Result α) : Prop where
  skip : ∀ {doc value}, read doc = .ok value → doc.skip = .ok ()
  restated : ∀ {doc doc' value}, doc.Restated schema form doc' → read doc = .ok value →
    read doc' = .ok value

def Doc.IsScalar : Doc → Prop
  | .array _ | .object _ | .broken _ => False
  | _ => True

namespace Conforms

variable {schema : Schema κ} {form : Form κ}

theorem of_scalar {read : Doc → Result α} (h : ∀ doc value, read doc = .ok value → doc.IsScalar) :
    Conforms schema form read where
  skip {doc value} hread := by
    have hscalar := h doc value hread
    cases doc with
    | array items => cases hscalar
    | object members => cases hscalar
    | broken fault => cases hscalar
    | _ => rfl
  restated {doc doc' value} hdoc hread := by
    have hscalar := h doc value hread
    cases hdoc.rearranged with
    | same => exact hread
    | array => cases hscalar
    | object => cases hscalar

theorem bool (depth : Nat) : Conforms schema form (Reader.bool depth) :=
  of_scalar fun doc value h => by
    unfold Reader.bool at h
    split at h
    · trivial
    · exact absurd h Doc.unexpected_ne_ok

theorem string (depth : Nat) : Conforms schema form (Reader.string depth) :=
  of_scalar fun doc value h => by
    unfold Reader.string at h
    split at h
    · trivial
    · exact absurd h Doc.unexpected_ne_ok

theorem int32 (depth : Nat) : Conforms schema form (Reader.int32 depth) :=
  of_scalar fun doc value h => by
    unfold Reader.int32 at h
    split at h
    · trivial
    · exact absurd h Doc.unexpected_ne_ok

theorem bind {read : Doc → Result α} (h : Conforms schema form read) (f : α → Result β) :
    Conforms schema form fun doc => read doc >>= f where
  skip hread := by
    obtain ⟨value, hvalue, -⟩ := Result.bind_eq_ok.mp hread
    exact h.skip hvalue
  restated hdoc hread := by
    obtain ⟨value, hvalue, hf⟩ := Result.bind_eq_ok.mp hread
    exact Result.bind_eq_ok.mpr ⟨value, h.restated hdoc hvalue, hf⟩

theorem map {read : Doc → Result α} (h : Conforms schema form read) (f : α → β) :
    Conforms schema form fun doc => f <$> read doc where
  skip hread := by
    obtain ⟨value, hvalue, -⟩ := Result.map_eq_ok.mp hread
    exact h.skip hvalue
  restated hdoc hread := by
    obtain ⟨value, hvalue, hf⟩ := Result.map_eq_ok.mp hread
    exact Result.map_eq_ok.mpr ⟨value, h.restated hdoc hvalue, hf⟩

theorem option {read : Reader α} {depth : Nat} (h : Conforms schema form (read depth)) :
    Conforms schema form (Reader.option read depth) where
  skip hread := by
    rcases Reader.eq_null_or_of_option hread with rfl | ⟨value, hvalue⟩
    · rfl
    · exact h.skip hvalue
  restated hdoc hread := by
    have hrearranged := hdoc.rearranged
    cases hrearranged with
    | same => exact hread
    | array => exact (h.map some).restated hdoc hread
    | object => exact (h.map some).restated hdoc hread

end Conforms

section

variable {schema : Schema κ} {form item : Form κ} {read : Doc → Result α}

theorem skip_of_items (h : Conforms schema item read) {items : Items} {values : List α}
    (hread : Reader.items read items = .ok values) : items.skip = .ok () := by
  fun_induction Reader.items read items generalizing values with
  | case1 => rfl
  | case2 doc rest ih =>
    obtain ⟨value, hvalue, hread⟩ := Result.bind_eq_ok.mp hread
    obtain ⟨others, hothers, -⟩ := Result.bind_eq_ok.mp hread
    exact Items.skip_item.mpr ⟨h.skip hvalue, ih hothers⟩
  | case3 => cases hread

theorem items_of_rearranged (h : Conforms schema item read) {forms : Nat → Form κ}
    (hforms : ∀ place, forms place = item) {items items' : Items} (hdistinct : items.Distinct)
    (hskip : items'.skip = .ok ()) (hitems : Items.Rearranged schema forms items items')
    {values : List α} (hread : Reader.items read items = .ok values) :
    Reader.items read items' = .ok values := by
  fun_induction Reader.items read items generalizing values forms items' with
  | case1 =>
    cases hitems
    exact hread
  | case2 doc rest ih =>
    cases hitems with
    | item value others =>
      obtain ⟨hskip, hskips⟩ := Items.skip_item.mp hskip
      obtain ⟨first, hfirst, hread⟩ := Result.bind_eq_ok.mp hread
      obtain ⟨tail, htail, hread⟩ := Result.bind_eq_ok.mp hread
      have hdoc : doc.Restated schema item _ := ⟨hdistinct.1, hforms 0 ▸ value, hskip⟩
      have hothers := ih (fun place => hforms (place + 1)) hdistinct.2 hskips others htail
      exact Result.bind_eq_ok.mpr ⟨first, h.restated hdoc hfirst,
        Result.bind_eq_ok.mpr ⟨tail, hothers, hread⟩⟩
  | case3 => cases hread

theorem skip_of_members (h : Conforms schema item read) {m values : Members α}
    {members : DocMembers} (hread : Reader.members read m members = .ok values) :
    members.skip = .ok () := by
  fun_induction Reader.members read m members with
  | case1 => rfl
  | case2 => cases hread
  | case3 m name doc rest ih =>
    obtain ⟨value, hvalue, hread⟩ := Result.bind_eq_ok.mp hread
    exact DocMembers.skip_member.mpr ⟨h.skip hvalue, ih value hread⟩
  | case4 => cases hread

def Entry.ReadAs (read : Doc → Result α) (entry : Entry) (value : String × α) : Prop :=
  entry.1 = some value.1 ∧ read entry.2 = .ok value.2

theorem members_ofEntries {entries : List Entry} {m values : Members α} :
    Reader.members read m (.ofEntries entries) = .ok values ↔
      ∃ found, List.Forall₂ (Entry.ReadAs read) entries found ∧
        values = found.foldl (fun m entry => Members.insert entry.1 entry.2 m) m := by
  induction entries generalizing m with
  | nil =>
    constructor
    · intro h
      cases h
      exact ⟨[], .nil, rfl⟩
    · intro ⟨found, hfound, heq⟩
      cases hfound
      exact heq ▸ rfl
  | cons entry rest ih =>
    obtain ⟨name, doc⟩ := entry
    constructor
    · intro h
      cases name with
      | none => cases h
      | some name =>
        obtain ⟨value, hvalue, h⟩ := Result.bind_eq_ok.mp h
        obtain ⟨found, hfound, heq⟩ := ih.mp h
        exact ⟨(name, value) :: found, .cons ⟨rfl, hvalue⟩ hfound, heq⟩
    · intro ⟨found, hfound, heq⟩
      cases hfound with
      | cons hvalue hrest =>
        obtain ⟨rfl, hvalue⟩ := hvalue
        exact Result.bind_eq_ok.mpr ⟨_, hvalue, ih.mpr ⟨_, hrest, heq⟩⟩

theorem readAs_of_rearranged (h : Conforms schema item read) {forms : Option String → Form κ}
    (hforms : ∀ name, forms name = item) {entries kept : List Entry}
    (hdistinct : ∀ entry ∈ entries, entry.2.Distinct)
    (hskip : ∀ entry ∈ kept, entry.2.skip = .ok ())
    (hentries : Entry.Rearranged schema forms entries kept) {found : List (String × α)}
    (hfound : List.Forall₂ (Entry.ReadAs read) entries found) :
    List.Forall₂ (Entry.ReadAs read) kept found := by
  induction hfound generalizing kept with
  | nil =>
    cases hentries
    exact .nil
  | cons hvalue hrest ih =>
    obtain ⟨hdistinct, hdistincts⟩ := List.forall_mem_cons.mp hdistinct
    cases hentries with
    | cons value others =>
      obtain ⟨hskip, hskips⟩ := List.forall_mem_cons.mp hskip
      exact .cons ⟨hvalue.1, h.restated ⟨hdistinct, hforms _ ▸ value, hskip⟩ hvalue.2⟩
        (ih hdistincts hskips others)

theorem names_of_readAs {entries : List Entry} {found : List (String × α)}
    (h : List.Forall₂ (Entry.ReadAs read) entries found) :
    entries.filterMap (·.1) = Members.names found := by
  induction h with
  | nil => rfl
  | cons hvalue _ ih =>
    rw [List.filterMap_cons_some hvalue.1, ih]
    rfl

/-- All values are found again, though in another order, and a map does not depend on that. -/
theorem members_of_rearranged (h : Conforms schema item read) {forms : Option String → Form κ}
    (hforms : ∀ name, forms name = item) {entries kept entries' : List Entry}
    (hnames : (DocMembers.ofEntries entries).names.Nodup)
    (hdistinct : ∀ entry ∈ entries, entry.2.Distinct)
    (hskip : ∀ entry ∈ entries', entry.2.skip = .ok ())
    (hentries : Entry.Rearranged schema forms entries kept) (horder : entries'.Perm kept)
    {values : Members α} (hread : Reader.members read [] (.ofEntries entries) = .ok values) :
    Reader.members read [] (.ofEntries entries') = .ok values := by
  obtain ⟨found, hfound, rfl⟩ := members_ofEntries.mp hread
  rw [DocMembers.names_ofEntries, names_of_readAs hfound] at hnames
  have hkept := readAs_of_rearranged h hforms hdistinct
    (fun entry hmem => hskip entry (horder.mem_iff.mpr hmem)) hentries hfound
  obtain ⟨found', hfound', hperm⟩ := List.perm_comp_forall₂ horder hkept
  exact members_ofEntries.mpr ⟨found', hfound', (Members.ofList_perm hnames hperm.symm)⟩

end

namespace Conforms

variable {schema : Schema κ} {form item : Form κ} {read : Reader α} {depth : Nat}

theorem of_list (hform : ∀ place, schema.item form place = item)
    (h : ∀ below, depth = below + 1 → Conforms schema item (read below)) :
    Conforms schema form (Reader.list read depth) where
  skip hread := by
    obtain ⟨items, rfl⟩ := Reader.eq_array_of_list hread
    cases depth with
    | zero => cases hread
    | succ below => exact skip_of_items (h below rfl) hread
  restated hdoc hread := by
    obtain ⟨items, rfl⟩ := Reader.eq_array_of_list hread
    obtain ⟨hdistinct, hrearranged, hskip⟩ := hdoc
    cases hrearranged with
    | same => exact hread
    | array values =>
      cases depth with
      | zero => cases hread
      | succ below => exact items_of_rearranged (h below rfl) hform hdistinct hskip values hread

theorem of_map (hform : ∀ name, schema.member form name = item)
    (hall : ∀ name, ¬ schema.PassesOver form name)
    (h : ∀ below, depth = below + 1 → Conforms schema item (read below)) :
    Conforms schema form (Reader.map read depth) where
  skip hread := by
    obtain ⟨members, rfl⟩ := Reader.eq_object_of_map hread
    cases depth with
    | zero => cases hread
    | succ below => exact skip_of_members (h below rfl) hread
  restated hdoc hread := by
    obtain ⟨members, rfl⟩ := Reader.eq_object_of_map hread
    obtain ⟨⟨hnames, hdistinct⟩, hrearranged, hskip⟩ := hdoc
    cases hrearranged with
    | same => exact hread
    | object values others =>
      cases depth with
      | zero => cases hread
      | succ below =>
        exact members_of_rearranged (h below rfl) hform hnames
          (DocMembers.distinct_ofEntries.mp hdistinct) (DocMembers.skip_ofEntries.mp hskip)
          values (others.perm hall) hread

theorem list (h : ∀ below, depth = below + 1 → Conforms schema item (read below)) :
    Conforms schema (.list item) (Reader.list read depth) :=
  of_list (fun _ => rfl) h

theorem mapOf (h : ∀ below, depth = below + 1 → Conforms schema item (read below)) :
    Conforms schema (.map item) (Reader.map read depth) :=
  of_map (fun _ => rfl) (fun _ => id) h

theorem json (depth : Nat) : Conforms schema .any (Reader.json depth) := by
  induction depth using Nat.strongRecOn with | ind depth ih => ?_
  have hbelow : ∀ below, depth = below + 1 → Conforms schema .any (Reader.json below) :=
    fun below heq => ih below (heq ▸ Nat.lt_succ_self below)
  have hlist : Conforms schema .any (Reader.list Reader.json depth) :=
    of_list (fun _ => rfl) hbelow
  have hmap : Conforms schema .any (Reader.map Reader.json depth) :=
    of_map (fun _ => rfl) (fun _ => id) hbelow
  constructor
  · intro doc value hread
    cases doc with
    | array items => exact (hlist.map Json.array).skip (Reader.json_array depth items ▸ hread)
    | object members => exact (hmap.map Json.object).skip (Reader.json_object depth members ▸ hread)
    | broken fault => cases hread
    | _ => rfl
  · intro doc doc' value hdoc hread
    have hrearranged := hdoc.rearranged
    cases hrearranged with
    | same => exact hread
    | array =>
      rw [Reader.json_array] at hread ⊢
      exact (hlist.map Json.array).restated hdoc hread
    | object =>
      rw [Reader.json_object] at hread ⊢
      exact (hmap.map Json.object).restated hdoc hread

end Conforms
inductive Fields.Conform (schema : Schema κ) (depth : Nat) :
    {αs : List Type} → Fields αs → List (String × Form κ) → Prop where
  | nil : Conform schema depth .nil []
  | cons {α : Type} {αs : List Type} {field : Field α} {rest : Fields αs} {form : Form κ}
      {known : List (String × Form κ)} (read : Conforms schema form (field.read depth))
      (others : Conform schema depth rest known) :
      Conform schema depth (.cons field rest) ((field.name, form) :: known)

namespace Fields

variable {αs : List Type} {fields : Fields αs} {schema : Schema κ} {form : Form κ}
  {known : List (String × Form κ)} {depth : Nat}

theorem Conform.names_eq (h : fields.Conform schema depth known) :
    fields.names = Members.names known := by
  induction h with
  | nil => rfl
  | cons _ _ ih => exact congrArg (_ :: ·) ih

theorem skip_of_store? (h : fields.Conform schema depth known) {name : String} {doc : Doc}
    {slots slots' : Slots αs} (hstore : fields.store? depth name doc slots = some (.ok slots')) :
    doc.skip = .ok () := by
  induction h with
  | nil => cases hstore
  | cons read _ ih =>
    obtain ⟨slot, slots⟩ := slots
    rw [store?_cons] at hstore
    split at hstore
    · cases slot with
      | some met => cases hstore
      | none =>
        obtain ⟨value, hvalue, -⟩ := Result.bind_eq_ok.mp (Option.some.inj hstore)
        exact read.skip hvalue
    · obtain ⟨result, hresult, hstore⟩ := Option.map_eq_some_iff.mp hstore
      obtain ⟨others, rfl, -⟩ := Result.map_eq_ok.mp hstore
      exact ih hresult

theorem skip_of_readMembers (h : fields.Conform schema depth known) {slots : Slots αs}
    {row : Row αs} {members : DocMembers}
    (hread : fields.readMembers depth slots members = .ok row) : members.skip = .ok () := by
  fun_induction fields.readMembers depth slots members with
  | case1 => rfl
  | case2 => cases hread
  | case3 slots name doc rest slots' hstore ih =>
    exact DocMembers.skip_member.mpr ⟨skip_of_store? h hstore, ih hread⟩
  | case4 => cases hread
  | case5 slots name doc rest hstore ih =>
    obtain ⟨_, hskip, hread⟩ := Result.bind_eq_ok.mp hread
    exact DocMembers.skip_member.mpr ⟨hskip, ih hread⟩
  | case6 => cases hread

theorem skip_of_readItems (h : fields.Conform schema depth known) {record : String}
    {total index : Nat} {row : Row αs} {items : Items}
    (hread : fields.readItems record total depth index items = .ok row) :
    items.skip = .ok () := by
  induction h generalizing index items with
  | nil =>
    cases items with
    | done => rfl
    | item doc rest => cases hread
    | broken fault => cases hread
  | cons read _ ih =>
    cases items with
    | done => rfl
    | item doc rest =>
      obtain ⟨value, hvalue, hread⟩ := Result.bind_eq_ok.mp hread
      obtain ⟨others, hothers, -⟩ := Result.bind_eq_ok.mp hread
      exact Items.skip_item.mpr ⟨read.skip hvalue, ih hothers⟩
    | broken fault => cases hread

theorem named_of_readMembers {slots : Slots αs} {row : Row αs} {entries : List Entry}
    (hread : fields.readMembers depth slots (.ofEntries entries) = .ok row) :
    ∀ entry ∈ entries, entry.1 ≠ none := by
  induction entries generalizing slots with
  | nil => exact List.forall_mem_nil _
  | cons entry rest ih =>
    obtain ⟨name, doc⟩ := entry
    cases name with
    | none => cases hread
    | some name =>
      rw [DocMembers.ofEntries, readMembers] at hread
      refine List.forall_mem_cons.mpr ⟨Option.some_ne_none name, ?_⟩
      split at hread
      · exact ih hread
      · cases hread
      · obtain ⟨_, -, hread⟩ := Result.bind_eq_ok.mp hread
        exact ih hread

/-- The values come from the members that are found, whatever stands between them. -/
theorem reads_of_restated (h : fields.Conform schema depth known) {docs docs' : DocMembers}
    (hfound : ∀ entry ∈ known, ∀ doc, docs.find? entry.1 = some doc →
      ∃ doc', docs'.find? entry.1 = some doc' ∧ doc.Restated schema entry.2 doc')
    (hnone : ∀ entry ∈ known, docs.find? entry.1 = none → docs'.find? entry.1 = none)
    {slots : Slots αs} {row : Row αs} (hreads : fields.Reads depth docs slots row) :
    fields.Reads depth docs' slots row := by
  induction h with
  | nil => trivial
  | @cons _ _ field _ _ _ read _ ih =>
    obtain ⟨slot, slots⟩ := slots
    obtain ⟨value, row⟩ := row
    obtain ⟨hfield, hrest⟩ := hreads
    obtain ⟨hfirst, hfound⟩ := List.forall_mem_cons.mp hfound
    obtain ⟨hnofirst, hnone⟩ := List.forall_mem_cons.mp hnone
    refine ⟨?_, ih hfound hnone hrest⟩
    rw [Field.Reads] at hfield ⊢
    cases hfind : docs.find? field.name with
    | none =>
      rw [hfind] at hfield
      rw [hnofirst hfind]
      exact hfield
    | some doc =>
      obtain ⟨doc', hfind', hdoc⟩ := hfirst doc hfind
      rw [hfind] at hfield
      rw [hfind']
      exact ⟨hfield.1, read.restated hdoc hfield.2⟩

theorem passable_ofEntries {names : List String} {entries : List Entry}
    (hnamed : ∀ entry ∈ entries, entry.1 ≠ none)
    (honce : ∀ name ∈ names, (DocMembers.ofEntries entries).names.count name ≤ 1)
    (hskip : ∀ entry ∈ entries, entry.2.skip = .ok ()) :
    (DocMembers.ofEntries entries).Passable names := by
  induction entries with
  | nil => trivial
  | cons entry rest ih =>
    obtain ⟨name, doc⟩ := entry
    obtain ⟨hname, hothers⟩ := List.forall_mem_cons.mp hnamed
    obtain ⟨hskip, hskips⟩ := List.forall_mem_cons.mp hskip
    cases name with
    | none => exact absurd rfl hname
    | some name =>
      refine ⟨fun hmem => ?_, fun _ => hskip, ih hothers (fun other hmem => ?_) hskips⟩
      · have hcount := honce name hmem
        rw [DocMembers.ofEntries, DocMembers.names, List.count_cons_self] at hcount
        exact DocMembers.find?_eq_none_of_not_mem
          (List.count_eq_zero.mp (Nat.le_zero.mp (Nat.succ_le_succ_iff.mp hcount)))
      · exact Nat.le_trans (List.count_le_count_cons) (honce other hmem)

section

variable {kind : κ} {entries kept entries' : List Entry}

theorem Conform.not_passesOver (h : fields.Conform schema depth (schema kind)) {name : String}
    (hname : name ∈ fields.names) : ¬ schema.PassesOver (.record kind) name :=
  not_not.mpr (h.names_eq ▸ hname)

theorem Conform.member_eq (h : fields.Conform schema depth (schema kind))
    (hfields : fields.names.Nodup) {entry : String × Form κ} (hmem : entry ∈ schema kind) :
    schema.member (.record kind) (some entry.1) = entry.2 := by
  rw [Schema.member, (Members.mem_iff_get? (h.names_eq ▸ hfields)).mp hmem]
  rfl

theorem readMembers_of_rearranged (h : fields.Conform schema depth (schema kind))
    (hfields : fields.names.Nodup) (hnames : (DocMembers.ofEntries entries).names.Nodup)
    (hdistinct : ∀ entry ∈ entries, entry.2.Distinct)
    (hskip : ∀ entry ∈ entries', entry.2.skip = .ok ())
    (values : Entry.Rearranged schema (schema.member (.record kind)) entries kept)
    (others : Entry.Extends schema (.record kind) kept entries') {row : Row αs}
    (hread : fields.readMembers depth fields.noSlots (.ofEntries entries) = .ok row) :
    fields.readMembers depth fields.noSlots (.ofEntries entries') = .ok row := by
  have hnamed := named_of_readMembers hread
  have hnamed' : ∀ entry ∈ entries', entry.1 ≠ none := by
    intro entry hmem
    rcases others.kept_or_passed hmem with hkept | ⟨name, hname, -⟩
    · exact values.named hnamed entry hkept
    · exact hname ▸ Option.some_ne_none name
  have hcount : ∀ name ∈ fields.names, (DocMembers.ofEntries entries').names.count name =
      (DocMembers.ofEntries entries).names.count name := fun name hname => by
    rw [others.count_names (h.not_passesOver hname), values.names_eq]
  have honce : ∀ name ∈ fields.names, (DocMembers.ofEntries entries').names.count name ≤ 1 :=
    fun name hname => hcount name hname ▸ List.nodup_iff_count_le_one.mp hnames name
  have hknown : ∀ entry ∈ schema kind, entry.1 ∈ fields.names := fun entry hmem =>
    h.names_eq ▸ List.mem_map_of_mem hmem
  -- A field finds its member again wherever that stands, and nothing where there was none.
  refine readMembers_of_reads hfields (passable_ofEntries hnamed' honce hskip)
    (reads_of_restated h (fun entry hmem doc hfind => ?_) (fun entry hmem hfind => ?_)
      (reads_readMembers hfields hread))
  · have hdoc := DocMembers.mem_of_find? hfind
    obtain ⟨doc', hdoc', hrearranged⟩ := values.exists_mem hdoc
    have hmem' := others.mem hdoc'
    exact ⟨doc', DocMembers.find?_eq_some_of_mem hnamed' (honce _ (hknown entry hmem)) hmem',
      hdistinct _ hdoc, h.member_eq hfields hmem ▸ hrearranged, hskip _ hmem'⟩
  · have hfresh := DocMembers.not_mem_of_find?_eq_none hnamed hfind
    rw [← List.count_eq_zero, ← hcount _ (hknown entry hmem), List.count_eq_zero] at hfresh
    exact DocMembers.find?_eq_none_of_not_mem hfresh

end

theorem readItems_of_rearranged (h : fields.Conform schema depth known) {record : String}
    {total index : Nat} {forms : Nat → Form κ}
    (hforms : ∀ place, forms place = (known[place]?.map (·.2)).getD .any) {items items' : Items}
    (hdistinct : items.Distinct) (hskip : items'.skip = .ok ())
    (values : Items.Rearranged schema forms items items') {row : Row αs}
    (hread : fields.readItems record total depth index items = .ok row) :
    fields.readItems record total depth index items' = .ok row := by
  induction h generalizing index items items' forms with
  | nil =>
    cases values with
    | done => exact hread
    | item value others => cases hread
  | cons read _ ih =>
    cases values with
    | done => exact hread
    | item value others =>
      obtain ⟨hskip, hskips⟩ := Items.skip_item.mp hskip
      obtain ⟨first, hfirst, hread⟩ := Result.bind_eq_ok.mp hread
      obtain ⟨tail, htail, hread⟩ := Result.bind_eq_ok.mp hread
      have hfirstForm := hforms 0
      rw [List.getElem?_cons_zero] at hfirstForm
      have hdoc : Doc.Restated schema _ _ _ := ⟨hdistinct.1, hfirstForm ▸ value, hskip⟩
      have hothers := ih (fun place => hforms (place + 1)) hdistinct.2 hskips others htail
      exact Result.bind_eq_ok.mpr
        ⟨first, read.restated hdoc hfirst, Result.bind_eq_ok.mpr ⟨tail, hothers, hread⟩⟩

end Fields

theorem Conforms.record {αs : List Type} {fields : Fields αs} {schema : Schema κ} {kind : κ}
    {depth : Nat} (name : String) (hfields : fields.names.Nodup)
    (h : ∀ below, depth = below + 1 → fields.Conform schema below (schema kind)) :
    Conforms schema (.record kind) (fields.read name depth) where
  skip {doc row} hread := by
    unfold Fields.read at hread
    split at hread
    · cases depth with
      | zero => cases hread
      | succ below => exact Fields.skip_of_readMembers (h below rfl) hread
    · cases depth with
      | zero => cases hread
      | succ below => exact Fields.skip_of_readItems (h below rfl) hread
    · exact absurd hread Doc.unexpected_ne_ok
  restated {doc doc' row} hdoc hread := by
    obtain ⟨hdistinct, hrearranged, hskip⟩ := hdoc
    cases hrearranged with
    | same => exact hread
    | array values =>
      cases depth with
      | zero => cases hread
      | succ below =>
        exact Fields.readItems_of_rearranged (h below rfl) (fun _ => rfl) hdistinct hskip values
          hread
    | object values others =>
      cases depth with
      | zero => cases hread
      | succ below =>
        exact Fields.readMembers_of_rearranged (h below rfl) hfields hdistinct.1
          (DocMembers.distinct_ofEntries.mp hdistinct.2) (DocMembers.skip_ofEntries.mp hskip)
          values others hread

theorem decode_eq_ok_iff {read : Reader α} {text : String} {value : α} :
    decode read text = .ok value ↔
      ∃ doc, Doc.ofText text.toList = (doc, false) ∧ read maxDepth doc = .ok value := by
  rw [decode]
  cases Doc.ofText text.toList with
  | mk doc trailing =>
    constructor
    · intro h
      obtain ⟨found, hfound, h⟩ := Result.bind_eq_ok.mp h
      cases trailing with
      | true => cases h
      | false =>
        cases h
        exact ⟨doc, rfl, hfound⟩
    · intro h
      obtain ⟨_, heq, hread⟩ := h
      cases heq
      exact Result.bind_eq_ok.mpr ⟨value, hread, rfl⟩

/-- Every text that is decoded stands for a value. If no object in it has two members of one name,
every text of a rearrangement of it is decoded alike. -/
def Tolerant (schema : Schema κ) (form : Form κ) (read : Reader α) : Prop :=
  ∀ text value, decode read text = .ok value → ∃ doc : Doc, doc.WholeText text ∧
    (doc.Distinct → ∀ doc' text', doc.Rearranged schema form doc' → doc'.WholeText text' →
      decode read text' = .ok value)

theorem Conforms.tolerant {schema : Schema κ} {form : Form κ} {read : Reader α}
    (h : Conforms schema form (read maxDepth)) : Tolerant schema form read := by
  intro text value hdecode
  obtain ⟨doc, htext, hread⟩ := decode_eq_ok_iff.mp hdecode
  refine ⟨doc, Doc.wholeText_iff.mpr ⟨htext, h.skip hread⟩, ?_⟩
  intro hdistinct doc' text' hrearranged hwhole
  obtain ⟨htext', hskip⟩ := Doc.wholeText_iff.mp hwhole
  exact decode_eq_ok_iff.mpr ⟨doc', htext', h.restated ⟨hdistinct, hrearranged, hskip⟩ hread⟩

end EnvClient.Json

import EnvClient.Proofs.Fields
import EnvClient.Proofs.Json.Printed

/-! Readers and the values that were written. A reader recovers what a value was written as if it
gives the value when it reads the tree of that; readers of lists, maps and records do so if those
of their parts do. -/
namespace EnvClient.Json

variable {α β : Type}

theorem Items.values_eq_items (depth : Nat) :
    ∀ items : Items, items.values depth = Reader.items (Doc.value depth) items
  | .done => rfl
  | .item doc rest => by rw [values, Reader.items, values_eq_items depth rest]
  | .broken _ => rfl

theorem DocMembers.values_eq_members (depth : Nat) : ∀ (members : DocMembers) (m : Members Json),
    members.values depth m = Reader.members (Doc.value depth) m members
  | .done, _ => rfl
  | .member none _ _, _ => rfl
  | .member (some name) doc rest, m => by
    rw [values, Reader.members]
    exact congrArg _ (funext fun value =>
      values_eq_members depth rest (Members.insert name value m))
  | .broken _, _ => rfl

namespace Reader

theorem items_ofJson {read : Doc → Result α} {toJson : α → Json} {values : List α}
    (h : ∀ value ∈ values, read (Doc.ofJson (toJson value)) = .ok value) :
    items read (Items.ofJson (values.map toJson)) = .ok values := by
  induction values with
  | nil => rfl
  | cons value rest ih =>
    obtain ⟨hvalue, hrest⟩ := List.forall_mem_cons.mp h
    rw [List.map_cons, Items.ofJson, items, hvalue, ih hrest]
    rfl

theorem members_ofJson {read : Doc → Result α} {toJson : α → Json} {m values : Members α}
    (hsorted : Members.Sorted (m ++ values))
    (h : ∀ entry ∈ values, read (Doc.ofJson (toJson entry.2)) = .ok entry.2) :
    members read m (DocMembers.ofJson (Members.mapValues toJson values)) = .ok (m ++ values) := by
  induction values generalizing m with
  | nil => rw [List.append_nil]; rfl
  | cons entry rest ih =>
    obtain ⟨name, value⟩ := entry
    obtain ⟨hvalue, hrest⟩ := List.forall_mem_cons.mp h
    have happend : m ++ (name, value) :: rest = m ++ [(name, value)] ++ rest := by simp
    rw [Members.mapValues, List.map_cons, DocMembers.ofJson, members, hvalue]
    change members read (Members.insert name value m) _ = _
    rw [hsorted.insert_append, happend]
    exact ih (happend ▸ hsorted) hrest

/-- With so many levels to go, the value is read from the JSON value, unless that is deeper. -/
def Recovers (read : Reader α) (depth : Nat) (j : Json) (value : α) : Prop :=
  j.nesting ≤ depth → read depth (Doc.ofJson j) = .ok value

theorem Recovers.bind {read : Reader α} {depth : Nat} {j : Json} {value : α}
    (h : read.Recovers depth j value) {f : α → Result β} {value' : β} (hf : f value = .ok value') :
    Recovers (fun depth doc => read depth doc >>= f) depth j value' := by
  intro hnesting
  change read depth (Doc.ofJson j) >>= f = _
  rw [h hnesting]
  exact hf

theorem recovers_bool (depth : Nat) (value : Bool) : bool.Recovers depth (.bool value) value :=
  fun _ => rfl

theorem recovers_string (depth : Nat) (s : String) : string.Recovers depth (.string s) s :=
  fun _ => rfl

theorem recovers_int32 (depth : Nat) (n : Int32) : int32.Recovers depth (ofInt32 n) n := by
  intro _
  change (if -0x80000000 ≤ n.toInt ∧ n.toInt < 0x80000000 then _ else _) = _
  rw [if_pos ⟨n.le_toInt, n.toInt_lt⟩, Int32.ofInt_toInt]

theorem recovers_option {read : Reader α} {depth : Nat} {j : Json} {value : α} (hnull : j ≠ .null)
    (h : read.Recovers depth j value) : (option read).Recovers depth j (some value) := by
  intro hnesting
  have hread : option read depth (Doc.ofJson j) = some <$> read depth (Doc.ofJson j) := by
    cases j with
    | null => exact absurd rfl hnull
    | _ => rfl
  rw [hread, h hnesting]
  rfl

/-- What is one level down need only be recovered with one level less to go. -/
theorem recovers_list {read : Reader α} {depth : Nat} {toJson : α → Json} {values : List α}
    (h : ∀ below, depth = below + 1 → ∀ value ∈ values, read.Recovers below (toJson value) value) :
    (list read).Recovers depth (.array (values.map toJson)) values := by
  intro hnesting
  cases depth with
  | zero => cases hnesting
  | succ below =>
    have hdepth := List.forall_mem_map.mp (nesting_array_le_succ.mp hnesting)
    exact items_ofJson fun value hmem => h below rfl value hmem (hdepth value hmem)

theorem recovers_map {read : Reader α} {depth : Nat} {toJson : α → Json} {m : Members α}
    (hsorted : Members.Sorted m)
    (h : ∀ below, depth = below + 1 → ∀ entry ∈ m, read.Recovers below (toJson entry.2) entry.2) :
    (map read).Recovers depth (.object (Members.mapValues toJson m)) m := by
  intro hnesting
  cases depth with
  | zero => cases hnesting
  | succ below =>
    have hdepth := nesting_object_le_succ.mp hnesting
    exact @members_ofJson _ _ _ [] _ hsorted fun entry hmem =>
      h below rfl entry hmem (hdepth _ (List.mem_map_of_mem hmem))

theorem json_array (depth : Nat) (items : Items) :
    json depth (.array items) = Json.array <$> list json depth (.array items) := by
  cases depth with
  | zero => rfl
  | succ below => exact congrArg (Json.array <$> ·) (Items.values_eq_items below items)

theorem json_object (depth : Nat) (members : DocMembers) :
    json depth (.object members) = Json.object <$> map json depth (.object members) := by
  cases depth with
  | zero => rfl
  | succ below => exact congrArg (Json.object <$> ·) (DocMembers.values_eq_members below members [])

theorem recovers_members {m : Members Json} (hsorted : Members.Sorted m) {depth : Nat}
    (h : ∀ below, ∀ member ∈ m, json.Recovers below member.2 member.2) :
    (map json).Recovers depth (.object m) m := by
  have hmap : (map json).Recovers depth (.object (Members.mapValues id m)) m :=
    recovers_map hsorted fun below _ => h below
  rwa [Members.mapValues_eq_self_iff.mpr fun _ _ => rfl] at hmap

theorem recovers_json {j : Json} (h : j.Sorted) (depth : Nat) : json.Recovers depth j j := by
  induction j generalizing depth with
  | null => exact fun _ => rfl
  | bool value => exact fun _ => rfl
  | number value => exact fun _ => rfl
  | string value => exact fun _ => rfl
  | array items ih =>
    have hitems : (list json).Recovers depth (.array (items.map id)) items :=
      recovers_list fun below _ item hmem => ih item hmem (sorted_array.mp h item hmem) below
    rw [List.map_id] at hitems
    intro hnesting
    have hread : list json depth (.array (Items.ofJson items)) = .ok items := hitems hnesting
    rw [Doc.ofJson, json_array, hread]
    rfl
  | object members ih =>
    obtain ⟨hnames, hvalues⟩ := sorted_object.mp h
    intro hnesting
    have hread : map json depth (.object (DocMembers.ofJson members)) = .ok members :=
      recovers_members hnames (fun below member hmem => ih member hmem (hvalues member hmem) below)
        hnesting
    rw [Doc.ofJson, json_object, hread]
    rfl

theorem recovers_mapJson {m : Members Json} (h : (object m).Sorted) (depth : Nat) :
    (map json).Recovers depth (.object m) m := by
  obtain ⟨hnames, hvalues⟩ := sorted_object.mp h
  exact recovers_members hnames fun below member hmem => recovers_json (hvalues member hmem) below

end Reader

/-- A field is written as nothing, or as a member that gives its value again. -/
inductive Field.Writes (field : Field α) (depth : Nat) (value : α) :
    List (String × Json) → Prop where
  | absent (absent : field.absent = some value) : Writes field depth value []
  | present {j : Json} (read : field.read.Recovers depth j value) :
      Writes field depth value [(field.name, j)]

theorem DocMembers.find?_ofJson_eq_none {name : String} {members : List (String × Json)}
    (h : name ∉ Members.names members) : (DocMembers.ofJson members).find? name = none := by
  induction members with
  | nil => rfl
  | cons member rest ih =>
    obtain ⟨hne, hrest⟩ := not_or.mp (mt List.mem_cons.mpr h)
    rw [ofJson, Fields.find?_member_of_ne (Ne.symm hne), ih hrest]

theorem DocMembers.passable_ofJson {names : List String} {members : List (String × Json)}
    (hdistinct : (Members.names members).Nodup)
    (hknown : ∀ name ∈ Members.names members, name ∈ names) :
    (DocMembers.ofJson members).Passable names := by
  induction members with
  | nil => trivial
  | cons member rest ih =>
    obtain ⟨hfresh, hdistinct⟩ := List.nodup_cons.mp hdistinct
    obtain ⟨hname, hknown⟩ := List.forall_mem_cons.mp hknown
    exact ⟨fun _ => find?_ofJson_eq_none hfresh, absurd hname, ih hdistinct hknown⟩

namespace Fields

variable {αs : List Type}

def Writes (depth : Nat) : {αs : List Type} → Fields αs → Row αs → List (String × Json) → Prop
  | _, .nil, _, members => members = []
  | _, .cons field rest, (value, row), members => ∃ own others,
    field.Writes depth value own ∧ rest.Writes depth row others ∧ members = own ++ others

theorem writes_nil (depth : Nat) : Fields.nil.Writes depth () [] := rfl

theorem writes_cons {field : Field α} {rest : Fields αs} {depth : Nat} {value : α} {row : Row αs}
    {own others : List (String × Json)} (h : field.Writes depth value own)
    (hrest : rest.Writes depth row others) :
    (Fields.cons field rest).Writes depth (value, row) (own ++ others) :=
  ⟨own, others, h, hrest, rfl⟩

theorem writes_present {field : Field α} {rest : Fields αs} {depth : Nat} {value : α}
    {row : Row αs} {j : Json} {others : List (String × Json)}
    (h : field.read.Recovers depth j value) (hrest : rest.Writes depth row others) :
    (Fields.cons field rest).Writes depth (value, row) ((field.name, j) :: others) :=
  writes_cons (.present h) hrest

/-- An option is written if there is a value; that must not look like there was none. -/
theorem writes_optional {name : String} {read : Reader α} {toJson : α → Json} {rest : Fields αs}
    {depth : Nat} {found : Option α} {row : Row αs} {others : List (String × Json)}
    (h : ∀ value ∈ found, toJson value ≠ .null ∧ read.Recovers depth (toJson value) value)
    (hrest : rest.Writes depth row others) :
    (Fields.cons (optional name read) rest).Writes depth (found, row)
      (member? name toJson found ++ others) := by
  refine writes_cons ?_ hrest
  cases found with
  | none => exact .absent rfl
  | some value =>
    obtain ⟨hnull, hread⟩ := h value rfl
    exact .present (Reader.recovers_option hnull hread)

theorem writes_optional_last {name : String} {read : Reader α} {toJson : α → Json} {depth : Nat}
    {found : Option α}
    (h : ∀ value ∈ found, toJson value ≠ .null ∧ read.Recovers depth (toJson value) value) :
    (Fields.cons (optional name read) .nil).Writes depth (found, ())
      (member? name toJson found) := by
  rw [← List.append_nil (member? name toJson found)]
  exact writes_optional h (writes_nil depth)

theorem Writes.names_sublist {fields : Fields αs} {depth : Nat} {row : Row αs}
    {members : List (String × Json)} (h : fields.Writes depth row members) :
    (Members.names members).Sublist fields.names := by
  induction fields generalizing members with
  | nil => rw [show members = [] from h]; exact List.Sublist.slnil
  | cons field rest ih =>
    obtain ⟨value, row⟩ := row
    obtain ⟨own, others, hfield, hrest, rfl⟩ := h
    cases hfield with
    | absent => exact (ih hrest).cons _
    | present => exact (ih hrest).cons_cons _

theorem reads_of_writes {fields : Fields αs} (hnames : fields.names.Nodup) {depth : Nat}
    {row : Row αs} {members : List (String × Json)} (h : fields.Writes depth row members)
    (hnesting : ∀ member ∈ members, member.2.nesting ≤ depth) :
    fields.Reads depth (DocMembers.ofJson members) fields.noSlots row := by
  induction fields generalizing members with
  | nil => trivial
  | cons field rest ih =>
    obtain ⟨value, row⟩ := row
    obtain ⟨own, others, hfield, hrest, rfl⟩ := h
    obtain ⟨hfresh, hnames⟩ := List.nodup_cons.mp hnames
    have habsent : (DocMembers.ofJson others).find? field.name = none :=
      DocMembers.find?_ofJson_eq_none fun hmem => hfresh (hrest.names_sublist.subset hmem)
    cases hfield with
    | absent hvalue =>
      refine ⟨?_, ih hnames hrest hnesting⟩
      rw [Field.Reads, List.nil_append, habsent]
      exact hvalue
    | present hread =>
      obtain ⟨hdepth, hnesting⟩ := List.forall_mem_cons.mp hnesting
      refine ⟨?_, (reads_member_iff hfresh).mpr (ih hnames hrest hnesting)⟩
      rw [Field.Reads, List.singleton_append, DocMembers.ofJson, DocMembers.find?, if_pos rfl]
      exact ⟨rfl, hread hdepth⟩

/-- A record is recovered from the members that its fields are written as. -/
theorem recovers_read (record : String) {fields : Fields αs} (hnames : fields.names.Nodup)
    {depth : Nat} {row : Row αs} {members : List (String × Json)}
    (h : ∀ below, depth = below + 1 → fields.Writes below row members) :
    (fields.read record).Recovers depth (.object members) row := by
  intro hnesting
  cases depth with
  | zero => cases hnesting
  | succ below =>
    have hwrites := h below rfl
    have hdistinct := hwrites.names_sublist.nodup hnames
    have hpass := DocMembers.passable_ofJson hdistinct fun name hmem =>
      hwrites.names_sublist.subset hmem
    exact readMembers_of_reads hnames hpass
      (reads_of_writes hnames hwrites (nesting_object_le_succ.mp hnesting))

end Fields

theorem decode_compact {read : Reader α} {j : Json} {value : α}
    (h : read.Recovers maxDepth j value) (hnesting : j.nesting ≤ maxDepth)
    (hnumbers : ∀ n, NodeOf (number n) j → n.ReadsBack) : decode read j.compact = .ok value := by
  rw [decode, ofText_compact hnumbers]
  change read maxDepth (Doc.ofJson j) >>= _ = _
  rw [h hnesting]
  rfl

end EnvClient.Json

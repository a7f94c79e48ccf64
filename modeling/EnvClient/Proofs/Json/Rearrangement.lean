import EnvClient.Proofs.Fields
import EnvClient.Proofs.Json.Accepted

/-! Members in another order, and members that nobody asks for. A schema says what is read as a
record and which members each kind of record knows. A value is rearranged by putting the members
of its objects in another order and by adding members to its records that they do not know. -/
namespace EnvClient.Json

variable {κ : Type}

/-- What a value is read as: anything, a list or a map of values of one form, or a record. -/
inductive Form (κ : Type) where
  | any
  | list (item : Form κ)
  | map (value : Form κ)
  | record (kind : κ)

abbrev Schema (κ : Type) := κ → List (String × Form κ)

namespace Schema

/-- The form of the item in a place. A record may also be an array, of the values of its members in
order. -/
def item (schema : Schema κ) : Form κ → Nat → Form κ
  | .list item, _ => item
  | .record kind, place => ((schema kind)[place]?.map (·.2)).getD .any
  | _, _ => .any

def member (schema : Schema κ) : Form κ → Option String → Form κ
  | .map value, _ => value
  | .record kind, some name => (Members.get? name (schema kind)).getD .any
  | _, _ => .any

/-- A record passes over the members that it does not know. Of maps, and where anything may stand,
every member is wanted. -/
def PassesOver (schema : Schema κ) : Form κ → String → Prop
  | .record kind, name => name ∉ Members.names (schema kind)
  | _, _ => False

instance (schema : Schema κ) (form : Form κ) (name : String) :
    Decidable (schema.PassesOver form name) :=
  match form with
  | .record kind => inferInstanceAs (Decidable (name ∉ Members.names (schema kind)))
  | .any | .list _ | .map _ => inferInstanceAs (Decidable False)

end Schema

abbrev Entry := Option String × Doc

deriving instance DecidableEq for Doc, Items, DocMembers

namespace DocMembers

def ofEntries : List Entry → DocMembers
  | [] => .done
  | (name, doc) :: rest => .member name doc (ofEntries rest)

def names : DocMembers → List String
  | .member (some name) _ rest => name :: rest.names
  | .member none _ rest => rest.names
  | _ => []

end DocMembers

mutual
def Doc.Distinct : Doc → Prop
  | .array items => items.Distinct
  | .object members => members.names.Nodup ∧ members.Distinct
  | _ => True
def Items.Distinct : Items → Prop
  | .item doc rest => doc.Distinct ∧ rest.Distinct
  | _ => True
def DocMembers.Distinct : DocMembers → Prop
  | .member _ doc rest => doc.Distinct ∧ rest.Distinct
  | _ => True
end

/-- The same entries, in whatever order, and others that are passed over. -/
def Entry.Extends (schema : Schema κ) (form : Form κ) (kept entries : List Entry) : Prop :=
  ∃ added, (∀ entry ∈ added, ∃ name, entry.1 = some name ∧ schema.PassesOver form name) ∧
    entries.Perm (kept ++ added)

mutual
/-- Objects at any depth have their members in another order, and members are added where they
are passed over. -/
inductive Doc.Rearranged (schema : Schema κ) : Form κ → Doc → Doc → Prop where
  | same {form : Form κ} {doc : Doc} : Doc.Rearranged schema form doc doc
  | array {form : Form κ} {items items' : Items}
      (values : Items.Rearranged schema (schema.item form) items items') :
      Doc.Rearranged schema form (.array items) (.array items')
  | object {form : Form κ} {entries kept entries' : List Entry}
      (values : Entry.Rearranged schema (schema.member form) entries kept)
      (others : Entry.Extends schema form kept entries') :
      Doc.Rearranged schema form (.object (.ofEntries entries)) (.object (.ofEntries entries'))
inductive Items.Rearranged (schema : Schema κ) : (Nat → Form κ) → Items → Items → Prop where
  | done {forms : Nat → Form κ} : Items.Rearranged schema forms .done .done
  | item {forms : Nat → Form κ} {doc doc' : Doc} {rest rest' : Items}
      (value : Doc.Rearranged schema (forms 0) doc doc')
      (others : Items.Rearranged schema (fun place => forms (place + 1)) rest rest') :
      Items.Rearranged schema forms (.item doc rest) (.item doc' rest')
inductive Entry.Rearranged (schema : Schema κ) :
    (Option String → Form κ) → List Entry → List Entry → Prop where
  | nil {forms : Option String → Form κ} : Entry.Rearranged schema forms [] []
  | cons {forms : Option String → Form κ} {name : Option String} {doc doc' : Doc}
      {rest rest' : List Entry} (value : Doc.Rearranged schema (forms name) doc doc')
      (others : Entry.Rearranged schema forms rest rest') :
      Entry.Rearranged schema forms ((name, doc) :: rest) ((name, doc') :: rest')
end

namespace DocMembers

@[simp] theorem names_ofEntries (entries : List Entry) :
    (ofEntries entries).names = entries.filterMap (·.1) := by
  induction entries with
  | nil => rfl
  | cons entry rest ih =>
    obtain ⟨name, doc⟩ := entry
    cases name with
    | none => exact ih
    | some name => exact congrArg (name :: ·) ih

@[simp] theorem distinct_ofEntries {entries : List Entry} :
    (ofEntries entries).Distinct ↔ ∀ entry ∈ entries, entry.2.Distinct := by
  induction entries with
  | nil => exact iff_of_true trivial nofun
  | cons entry rest ih => rw [List.forall_mem_cons, ← ih]; rfl

@[simp] theorem skip_ofEntries {entries : List Entry} :
    (ofEntries entries).skip = .ok () ↔ ∀ entry ∈ entries, entry.2.skip = .ok () := by
  induction entries with
  | nil => exact iff_of_true rfl nofun
  | cons entry rest ih => rw [ofEntries, skip_member, List.forall_mem_cons, ih]

theorem mem_of_find? {name : String} {doc : Doc} {entries : List Entry}
    (h : (ofEntries entries).find? name = some doc) : (some name, doc) ∈ entries := by
  induction entries with
  | nil => cases h
  | cons entry rest ih =>
    obtain ⟨other, value⟩ := entry
    cases other with
    | none => cases h
    | some other =>
      rw [ofEntries, find?] at h
      split at h
      · rename_i heq
        cases h
        exact heq ▸ List.mem_cons_self
      · exact List.mem_cons_of_mem _ (ih h)

theorem find?_eq_none_of_not_mem {name : String} {entries : List Entry}
    (h : name ∉ (ofEntries entries).names) : (ofEntries entries).find? name = none := by
  cases hfind : (ofEntries entries).find? name with
  | none => rfl
  | some doc =>
    refine absurd ?_ h
    rw [names_ofEntries]
    exact List.mem_filterMap.mpr ⟨_, mem_of_find? hfind, rfl⟩

theorem not_mem_of_find?_eq_none {name : String} {entries : List Entry}
    (hnamed : ∀ entry ∈ entries, entry.1 ≠ none) (h : (ofEntries entries).find? name = none) :
    name ∉ (ofEntries entries).names := by
  induction entries with
  | nil => exact List.not_mem_nil
  | cons entry rest ih =>
    obtain ⟨other, value⟩ := entry
    obtain ⟨hother, hrest⟩ := List.forall_mem_cons.mp hnamed
    cases other with
    | none => exact absurd rfl hother
    | some other =>
      rw [ofEntries, find?] at h
      split at h
      · cases h
      · rename_i hne
        exact fun hmem => (List.mem_cons.mp hmem).elim (Ne.symm hne) (ih hrest h)

theorem find?_eq_some_of_mem {name : String} {doc : Doc} {entries : List Entry}
    (hnamed : ∀ entry ∈ entries, entry.1 ≠ none)
    (honce : (ofEntries entries).names.count name ≤ 1) (h : (some name, doc) ∈ entries) :
    (ofEntries entries).find? name = some doc := by
  induction entries with
  | nil => cases h
  | cons entry rest ih =>
    obtain ⟨other, value⟩ := entry
    obtain ⟨hother, hrest⟩ := List.forall_mem_cons.mp hnamed
    cases other with
    | none => exact absurd rfl hother
    | some other =>
      rw [ofEntries, names] at honce
      rw [ofEntries, find?]
      have hmem : (some name, doc) ∈ rest → name ∈ (ofEntries rest).names := fun h => by
        rw [names_ofEntries]
        exact List.mem_filterMap.mpr ⟨_, h, rfl⟩
      cases List.mem_cons.mp h with
      | inl heq =>
        cases heq
        exact if_pos rfl
      | inr hmem' =>
        have hcount := List.count_pos_iff.mpr (hmem hmem')
        have hne : other ≠ name := fun heq => by
          rw [heq, List.count_cons_self] at honce
          exact absurd (Nat.succ_le_succ_iff.mp honce) (Nat.not_le_of_gt hcount)
        rw [List.count_cons_of_ne hne] at honce
        rw [if_neg hne]
        exact ih hrest honce hmem'

end DocMembers

namespace Entry

variable {schema : Schema κ} {form : Form κ} {forms : Option String → Form κ}
  {kept entries : List Entry}

theorem extends_of_perm (order : entries.Perm kept) : Extends schema form kept entries :=
  ⟨[], List.forall_mem_nil _, order.trans (.of_eq (List.append_nil kept).symm)⟩

theorem Extends.perm (h : Extends schema form kept entries)
    (hall : ∀ name, ¬ schema.PassesOver form name) : entries.Perm kept := by
  obtain ⟨added, passed, order⟩ := h
  have hadded : added = [] := List.eq_nil_iff_forall_not_mem.mpr fun entry hmem => by
    obtain ⟨name, -, hpass⟩ := passed entry hmem
    exact hall name hpass
  rwa [hadded, List.append_nil] at order

theorem Extends.mem (h : Extends schema form kept entries) {entry : Entry} (hmem : entry ∈ kept) :
    entry ∈ entries := by
  obtain ⟨added, -, order⟩ := h
  exact order.mem_iff.mpr (List.mem_append_left added hmem)

theorem Extends.kept_or_passed (h : Extends schema form kept entries) {entry : Entry}
    (hmem : entry ∈ entries) :
    entry ∈ kept ∨ ∃ name, entry.1 = some name ∧ schema.PassesOver form name := by
  obtain ⟨added, passed, order⟩ := h
  exact (List.mem_append.mp (order.mem_iff.mp hmem)).imp_right (passed entry)

theorem Extends.count_names (h : Extends schema form kept entries) {name : String}
    (hname : ¬ schema.PassesOver form name) :
    (DocMembers.ofEntries entries).names.count name =
      (DocMembers.ofEntries kept).names.count name := by
  obtain ⟨added, passed, order⟩ := h
  have hadded : name ∉ added.filterMap (·.1) := by
    intro hmem
    obtain ⟨entry, hentry, heq⟩ := List.mem_filterMap.mp hmem
    obtain ⟨other, hother, hpass⟩ := passed entry hentry
    cases heq.symm.trans hother
    exact hname hpass
  rw [DocMembers.names_ofEntries, DocMembers.names_ofEntries, (order.filterMap _).count_eq,
    List.filterMap_append, List.count_append, List.count_eq_zero.mpr hadded, Nat.add_zero]

namespace Rearranged

theorem map_fst (h : Entry.Rearranged schema forms entries kept) :
    kept.map (·.1) = entries.map (·.1) := by
  induction entries generalizing kept with
  | nil =>
    cases h
    rfl
  | cons entry rest ih =>
    cases h with
    | cons value others => exact congrArg (_ :: ·) (ih others)

theorem names_eq (h : Entry.Rearranged schema forms entries kept) :
    (DocMembers.ofEntries kept).names = (DocMembers.ofEntries entries).names := by
  have hmap := congrArg (List.filterMap id) h.map_fst
  rw [List.filterMap_map, List.filterMap_map] at hmap
  rw [DocMembers.names_ofEntries, DocMembers.names_ofEntries]
  exact hmap

theorem named (h : Entry.Rearranged schema forms entries kept)
    (hnamed : ∀ entry ∈ entries, entry.1 ≠ none) : ∀ entry ∈ kept, entry.1 ≠ none := by
  intro entry hmem
  have hname : entry.1 ∈ entries.map (·.1) := h.map_fst ▸ List.mem_map_of_mem hmem
  obtain ⟨other, hother, heq⟩ := List.mem_map.mp hname
  exact heq ▸ hnamed other hother

theorem exists_mem (h : Entry.Rearranged schema forms entries kept) {name : Option String}
    {doc : Doc} (hmem : (name, doc) ∈ entries) :
    ∃ doc', (name, doc') ∈ kept ∧ doc.Rearranged schema (forms name) doc' := by
  induction entries generalizing kept with
  | nil => cases hmem
  | cons entry rest ih =>
    cases h with
    | cons value others =>
      cases List.mem_cons.mp hmem with
      | inl heq =>
        cases heq
        exact ⟨_, List.mem_cons_self, value⟩
      | inr hmem =>
        obtain ⟨doc', hmem', hvalue⟩ := ih others hmem
        exact ⟨doc', List.mem_cons_of_mem _ hmem', hvalue⟩

theorem refl (schema : Schema κ) (forms : Option String → Form κ) (entries : List Entry) :
    Entry.Rearranged schema forms entries entries := by
  induction entries with
  | nil => exact .nil
  | cons entry rest ih => exact .cons .same ih

end Rearranged
end Entry

namespace Doc.Rearranged

variable {schema : Schema κ} {form : Form κ} {entries entries' : List Entry}

theorem of_insert {kind : κ} {name : String} {doc : Doc} (before after : List Entry)
    (h : name ∉ Members.names (schema kind)) :
    Doc.Rearranged schema (.record kind) (.object (.ofEntries (before ++ after)))
      (.object (.ofEntries (before ++ (some name, doc) :: after))) := by
  refine .object (.refl schema _ _) ⟨[(some name, doc)], ?_, ?_⟩
  · exact List.forall_mem_singleton.mpr ⟨name, rfl, h⟩
  · exact List.perm_middle.trans (List.perm_append_singleton _ _).symm

end Doc.Rearranged

end EnvClient.Json

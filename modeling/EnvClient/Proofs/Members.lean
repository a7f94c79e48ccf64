import EnvClient.Members

/-! Laws of finite maps. A sorted map is determined by its look-ups, so equations between maps
come down to equations between what is found under a name. -/
namespace EnvClient.Members

variable {α β : Type}

instance (m : Members α) : Decidable (Sorted m) := inferInstanceAs (Decidable (List.Pairwise _ m))

theorem sorted_cons {entry : String × α} {rest : Members α} :
    Sorted (entry :: rest) ↔ (∀ name ∈ names rest, entry.1 < name) ∧ Sorted rest := by
  unfold Sorted names
  rw [List.pairwise_cons, List.forall_mem_map]

theorem Sorted.tail {entry : String × α} {rest : Members α} (h : Sorted (entry :: rest)) :
    Sorted rest :=
  (sorted_cons.mp h).2

theorem get?_eq_none_iff {name : String} {m : Members α} : get? name m = none ↔ name ∉ names m := by
  induction m with
  | nil => simp [get?, names]
  | cons entry rest ih =>
    obtain ⟨key, value⟩ := entry
    by_cases h : key = name
    · simp [get?, names, h]
    · have hne : name ≠ key := Ne.symm h
      unfold names at ih
      simp [get?, names, h, hne, ih]

theorem mem_names_iff {name : String} {m : Members α} :
    name ∈ names m ↔ ∃ value, get? name m = some value := by
  rw [← Option.isSome_iff_exists, ← Option.ne_none_iff_isSome, Ne, get?_eq_none_iff, Classical.not_not]

theorem mem_of_get? {name : String} {value : α} {m : Members α} (h : get? name m = some value) :
    (name, value) ∈ m := by
  induction m with
  | nil => cases h
  | cons entry rest ih =>
    obtain ⟨key, old⟩ := entry
    unfold get? at h
    split at h
    · rename_i heq
      cases h
      rw [heq]
      exact List.mem_cons_self
    · exact List.mem_cons_of_mem _ (ih h)

theorem Sorted.get?_head {entry : String × α} {rest : Members α} (h : Sorted (entry :: rest)) :
    get? entry.1 rest = none := by
  rw [get?_eq_none_iff]
  intro hmem
  exact String.lt_irrefl _ ((sorted_cons.mp h).1 _ hmem)

private theorem Sorted.head_le {key name : String} {value found : α} {rest : Members α}
    (h : Sorted ((key, value) :: rest)) (hget : get? name ((key, value) :: rest) = some found) :
    key ≤ name := by
  by_cases heq : key = name
  · exact heq ▸ String.le_refl key
  · rw [get?, if_neg heq] at hget
    have hlt := (sorted_cons.mp h).1 name (mem_names_iff.mpr ⟨found, hget⟩)
    exact String.not_lt.mp (String.lt_asymm hlt)

theorem Sorted.ext {a b : Members α} (ha : Sorted a) (hb : Sorted b)
    (h : ∀ name, get? name a = get? name b) : a = b := by
  induction a generalizing b with
  | nil =>
    cases b with
    | nil => rfl
    | cons entry rest =>
      have := h entry.1
      simp [get?] at this
  | cons entry rest ih =>
    obtain ⟨key, value⟩ := entry
    cases b with
    | nil =>
      have := h key
      simp [get?] at this
    | cons other others =>
      obtain ⟨key', value'⟩ := other
      -- Each first name stands in the other map too, so neither comes before the other.
      have hfirst : get? key ((key', value') :: others) = some value := by
        rw [← h key, get?, if_pos rfl]
      have hsecond : get? key' ((key, value) :: rest) = some value' := by
        rw [h key', get?, if_pos rfl]
      have hkey : key = key' :=
        String.le_antisymm (ha.head_le hsecond) (hb.head_le hfirst)
      subst hkey
      rw [get?, if_pos rfl] at hfirst
      cases hfirst
      congr 1
      apply ih ha.tail hb.tail
      intro name
      by_cases hname : key = name
      · rw [← hname]
        exact ha.get?_head.trans hb.get?_head.symm
      · have := h name
        rwa [get?, if_neg hname, get?, if_neg hname] at this

theorem get?_insert (key name : String) (value : α) (m : Members α) :
    get? key (insert name value m) = if key = name then some value else get? key m := by
  induction m with
  | nil => simp [insert, get?, eq_comm]
  | cons entry rest ih =>
    obtain ⟨first, old⟩ := entry
    unfold insert
    split
    · simp [get?, eq_comm]
    · split
      · rename_i heq
        subst heq
        by_cases hkey : key = name
        · simp [get?, hkey]
        · simp [get?, hkey, Ne.symm hkey]
      · rename_i hne
        by_cases hfirst : first = key
        · have hkey : key ≠ name := fun h => hne (h ▸ hfirst.symm)
          simp [get?, hfirst, hkey]
        · simp [get?, hfirst, ih]

theorem mem_names_insert {key name : String} {value : α} {m : Members α} :
    key ∈ names (insert name value m) ↔ key = name ∨ key ∈ names m := by
  simp only [mem_names_iff, get?_insert]
  by_cases h : key = name
  · simp [h]
  · simp [h]

theorem mem_insert {entry : String × α} {name : String} {value : α} {m : Members α}
    (h : entry ∈ insert name value m) : entry = (name, value) ∨ entry ∈ m := by
  induction m with
  | nil => exact Or.inl (List.mem_singleton.mp h)
  | cons first rest ih =>
    obtain ⟨key, old⟩ := first
    unfold insert at h
    split at h
    · exact List.mem_cons.mp h
    · split at h
      · cases List.mem_cons.mp h with
        | inl heq => exact Or.inl heq
        | inr hrest => exact Or.inr (List.mem_cons_of_mem _ hrest)
      · cases List.mem_cons.mp h with
        | inl heq => exact Or.inr (heq ▸ List.mem_cons_self)
        | inr hrest => exact (ih hrest).imp_right (List.mem_cons_of_mem _)

theorem forall_mem_insert {P : α → Prop} {name : String} {value : α} {m : Members α}
    (hvalue : P value) (hm : ∀ entry ∈ m, P entry.2) :
    ∀ entry ∈ insert name value m, P entry.2 := by
  intro entry hmem
  cases mem_insert hmem with
  | inl heq =>
    rw [heq]
    exact hvalue
  | inr hold => exact hm entry hold

theorem sorted_nil : Sorted ([] : Members α) := List.Pairwise.nil

theorem Sorted.insert {m : Members α} (h : Sorted m) (name : String) (value : α) :
    Sorted (insert name value m) := by
  induction m with
  | nil => exact List.pairwise_singleton _ _
  | cons entry rest ih =>
    obtain ⟨first, old⟩ := entry
    obtain ⟨hlt, hrest⟩ := sorted_cons.mp h
    unfold Members.insert
    split
    · rename_i hname
      refine sorted_cons.mpr ⟨fun other hother => ?_, h⟩
      cases hother with
      | head => exact hname
      | tail _ hother => exact String.lt_trans hname (hlt other hother)
    · split
      · rename_i heq
        subst heq
        exact sorted_cons.mpr ⟨hlt, hrest⟩
      · rename_i hle hne
        refine sorted_cons.mpr ⟨fun other hother => ?_, ih hrest⟩
        cases mem_names_insert.mp hother with
        | inl heq =>
          rw [heq]
          exact String.not_le.mp fun hge => hne (String.le_antisymm (String.not_lt.mp hle) hge |>.symm)
        | inr hother => exact hlt other hother

theorem insert_of_lt {m : Members α} {name : String} (h : ∀ key ∈ names m, key < name)
    (value : α) : insert name value m = m ++ [(name, value)] := by
  induction m with
  | nil => rfl
  | cons entry rest ih =>
    obtain ⟨key, old⟩ := entry
    have hkey : key < name := h key List.mem_cons_self
    have hne : name ≠ key := fun heq => String.lt_irrefl _ (heq ▸ hkey)
    rw [insert, if_neg (String.lt_asymm hkey), if_neg hne,
      ih fun other hmem => h other (List.mem_cons_of_mem _ hmem)]
    rfl

theorem Sorted.insert_append {m rest : Members α} {name : String} {value : α}
    (h : Sorted (m ++ (name, value) :: rest)) :
    Members.insert name value m = m ++ [(name, value)] := by
  refine insert_of_lt (fun key hmem => ?_) value
  obtain ⟨entry, hentry, rfl⟩ := List.mem_map.mp hmem
  exact (List.pairwise_append.mp h).2.2 entry hentry _ List.mem_cons_self

theorem get?_erase_of_ne {key name : String} (h : key ≠ name) (m : Members α) :
    get? key (erase name m) = get? key m := by
  induction m with
  | nil => rfl
  | cons entry rest ih =>
    obtain ⟨first, value⟩ := entry
    unfold erase
    split
    · rename_i heq
      rw [get?, if_neg (heq ▸ Ne.symm h)]
    · rw [get?, get?, ih]

theorem Sorted.get?_erase {m : Members α} (h : Sorted m) (key name : String) :
    get? key (erase name m) = if key = name then none else get? key m := by
  by_cases hkey : key = name
  · subst hkey
    rw [if_pos rfl]
    induction m with
    | nil => rfl
    | cons entry rest ih =>
      obtain ⟨first, value⟩ := entry
      unfold erase
      split
      · rename_i heq
        exact heq ▸ h.get?_head
      · rename_i hne
        rw [get?, if_neg hne]
        exact ih h.tail
  · rw [if_neg hkey]
    exact get?_erase_of_ne hkey m

theorem erase_sublist (name : String) (m : Members α) : (erase name m).Sublist m := by
  induction m with
  | nil => exact List.Sublist.refl _
  | cons entry rest ih =>
    unfold erase
    split
    · exact List.sublist_cons_self _ _
    · exact ih.cons_cons _

theorem Sorted.erase {m : Members α} (h : Sorted m) (name : String) : Sorted (erase name m) :=
  h.sublist (erase_sublist name m)

theorem erase_eq_self {name : String} {m : Members α} (h : name ∉ names m) : erase name m = m := by
  induction m with
  | nil => rfl
  | cons entry rest ih =>
    obtain ⟨key, value⟩ := entry
    unfold names at h ih
    simp only [List.map_cons, List.mem_cons, not_or] at h
    rw [erase, if_neg (Ne.symm h.1), ih h.2]

theorem Sorted.erase_insert {m : Members α} (h : Sorted m) (name : String) (value : α) :
    Members.erase name (Members.insert name value m) = Members.erase name m := by
  apply ((h.insert name value).erase name).ext (h.erase name)
  intro key
  rw [(h.insert name value).get?_erase, h.get?_erase, get?_insert]
  split
  · rfl
  · rfl

theorem Sorted.insert_erase {m : Members α} (h : Sorted m) {name : String} {value : α}
    (hget : get? name m = some value) :
    Members.insert name value (Members.erase name m) = m := by
  apply ((h.erase name).insert name value).ext h
  intro key
  rw [get?_insert, h.get?_erase]
  split
  · rename_i heq
    rw [heq, hget]
  · rfl

theorem Sorted.erase_eq_self_iff {m : Members α} (h : Sorted m) {name : String} :
    Members.erase name m = m ↔ name ∉ names m := by
  constructor
  · intro heq
    rw [← get?_eq_none_iff, ← heq, h.get?_erase, if_pos rfl]
  · exact erase_eq_self

theorem get?_mapValues (f : α → β) (name : String) (m : Members α) :
    get? name (mapValues f m) = (get? name m).map f := by
  induction m with
  | nil => rfl
  | cons entry rest ih =>
    obtain ⟨key, value⟩ := entry
    change get? name ((key, f value) :: mapValues f rest) = _
    unfold get?
    split
    · rfl
    · exact ih

theorem names_mapValues (f : α → β) (m : Members α) : names (mapValues f m) = names m :=
  List.map_map

theorem Sorted.mapValues {m : Members α} (h : Sorted m) (f : α → β) : Sorted (mapValues f m) :=
  List.pairwise_map.mpr h

theorem Sorted.mapValues_eq {γ : Type} {a : Members α} {b : Members β} (ha : Sorted a)
    (hb : Sorted b) {f : α → γ} {g : β → γ} (hnames : ∀ name, name ∈ names a ↔ name ∈ names b)
    (hvalues : ∀ name value other, get? name a = some value → get? name b = some other →
      f value = g other) :
    Members.mapValues f a = Members.mapValues g b := by
  apply (ha.mapValues f).ext (hb.mapValues g)
  intro name
  rw [get?_mapValues, get?_mapValues]
  have hname := hnames name
  rw [mem_names_iff, mem_names_iff] at hname
  cases hget : get? name a with
  | none =>
    cases hother : get? name b with
    | none => rfl
    | some other =>
      obtain ⟨value, hvalue⟩ := hname.mpr ⟨other, hother⟩
      rw [hget] at hvalue
      cases hvalue
  | some value =>
    obtain ⟨other, hother⟩ := hname.mp ⟨value, hget⟩
    rw [hother, Option.map_some, Option.map_some, hvalues name value other hget hother]

theorem mapValues_mapValues {γ : Type} (f : α → β) (g : β → γ) (m : Members α) :
    mapValues g (mapValues f m) = mapValues (fun value => g (f value)) m :=
  List.map_map

theorem forall_mem_mapValues {f : α → β} {m : Members α} {motive : β → Prop} :
    (∀ entry ∈ mapValues f m, motive entry.2) ↔ ∀ entry ∈ m, motive (f entry.2) :=
  List.forall_mem_map

theorem mapValues_eq_self_iff {f : α → α} {m : Members α} :
    mapValues f m = m ↔ ∀ entry ∈ m, f entry.2 = entry.2 := by
  induction m with
  | nil => simp [mapValues]
  | cons entry rest ih =>
    unfold mapValues at ih ⊢
    rw [List.map_cons, List.cons.injEq, ih, List.forall_mem_cons, Prod.ext_iff]
    simp

/-- The values that come of those under which something is chosen, under the same names. -/
def chosen (f : α → Option β) (m : Members α) : Members β :=
  m.filterMap fun entry => (f entry.2).map (entry.1, ·)

theorem chosen_cons (f : α → Option β) (name : String) (value : α) (rest : Members α) :
    chosen f ((name, value) :: rest) = match f value with
      | some result => (name, result) :: chosen f rest
      | none => chosen f rest := by
  unfold chosen
  rw [List.filterMap_cons]
  cases f value with
  | none => rfl
  | some result => rfl

theorem Sorted.get?_chosen {m : Members α} (h : Sorted m) (f : α → Option β) (name : String) :
    get? name (chosen f m) = (get? name m).bind f := by
  induction m with
  | nil => rfl
  | cons entry rest ih =>
    obtain ⟨key, value⟩ := entry
    have hrest := ih h.tail
    rw [chosen_cons, get?]
    by_cases hkey : key = name
    · subst hkey
      rw [h.get?_head] at hrest
      cases hf : f value with
      | none => simpa [hf] using hrest
      | some result => simp [get?, hf]
    · rw [if_neg hkey, ← hrest]
      cases f value with
      | none => rfl
      | some result => rw [get?, if_neg hkey]

theorem names_chosen_sublist (f : α → Option β) (m : Members α) :
    (names (chosen f m)).Sublist (names m) := by
  induction m with
  | nil => exact List.Sublist.refl _
  | cons entry rest ih =>
    obtain ⟨key, value⟩ := entry
    rw [chosen_cons]
    cases f value with
    | none => exact ih.cons key
    | some result => exact ih.cons_cons key

theorem Sorted.chosen {m : Members α} (h : Sorted m) (f : α → Option β) :
    Sorted (Members.chosen f m) := by
  have hnames : (names m).Pairwise (· < ·) := List.pairwise_map.mpr h
  exact List.pairwise_map.mp (hnames.sublist (names_chosen_sublist f m))

theorem Sorted.nodup_names {m : Members α} (h : Sorted m) : (names m).Nodup := by
  have hnames : (names m).Pairwise (· < ·) := List.pairwise_map.mpr h
  exact hnames.imp fun {a b} (hlt : a < b) (heq : a = b) => String.lt_irrefl b (heq ▸ hlt)

theorem mem_iff_get? {m : Members α} (h : (names m).Nodup) {name : String} {value : α} :
    (name, value) ∈ m ↔ get? name m = some value := by
  refine ⟨fun hmem => ?_, mem_of_get?⟩
  induction m with
  | nil => cases hmem
  | cons entry rest ih =>
    obtain ⟨hfirst, hrest⟩ := List.nodup_cons.mp h
    cases List.mem_cons.mp hmem with
    | inl heq =>
      cases heq
      rw [get?, if_pos rfl]
    | inr hmem =>
      have hname : name ∈ names rest := List.mem_map_of_mem (f := (·.1)) hmem
      have hne : entry.1 ≠ name := by
        rintro rfl
        exact hfirst hname
      rw [get?, if_neg hne, ih hrest hmem]

private theorem get?_foldl_insert {entries : List (String × α)} (h : (names entries).Nodup)
    (m : Members α) (name : String) :
    get? name (entries.foldl (fun m entry => Members.insert entry.1 entry.2 m) m) =
      (get? name entries).or (get? name m) := by
  induction entries generalizing m with
  | nil => rfl
  | cons entry rest ih =>
    obtain ⟨hfirst, hrest⟩ := List.nodup_cons.mp h
    rw [List.foldl_cons, ih hrest, get?_insert, get?]
    by_cases heq : entry.1 = name
    · subst heq
      rw [get?_eq_none_iff.mpr hfirst, if_pos rfl, if_pos rfl]
      rfl
    · rw [if_neg heq, if_neg (Ne.symm heq)]

private theorem sorted_foldl_insert (entries : List (String × α)) {m : Members α} (h : Sorted m) :
    Sorted (entries.foldl (fun m entry => Members.insert entry.1 entry.2 m) m) := by
  induction entries generalizing m with
  | nil => exact h
  | cons entry rest ih => exact ih (h.insert entry.1 entry.2)

theorem ofList_perm {entries entries' : List (String × α)} (h : (names entries).Nodup)
    (hperm : entries.Perm entries') : ofList entries = ofList entries' := by
  have h' : (names entries').Nodup := (hperm.map _).nodup_iff.mp h
  apply (sorted_foldl_insert entries sorted_nil).ext (sorted_foldl_insert entries' sorted_nil)
  intro name
  rw [get?_foldl_insert h, get?_foldl_insert h']
  congr 1
  apply Option.ext
  intro value
  rw [← mem_iff_get? h, ← mem_iff_get? h', hperm.mem_iff]

theorem Sorted.ofList_self {m : Members α} (h : Sorted m) : ofList m = m := by
  apply (sorted_foldl_insert m sorted_nil).ext h
  intro name
  rw [get?_foldl_insert h.nodup_names, get?, Option.or_none]

theorem Sorted.ofList_eq {m : Members α} (h : Sorted m) {entries : List (String × α)}
    (hperm : entries.Perm m) : ofList entries = m := by
  have hnodup : (names entries).Nodup := (hperm.map _).nodup_iff.mpr h.nodup_names
  rw [ofList_perm hnodup hperm, h.ofList_self]

end EnvClient.Members

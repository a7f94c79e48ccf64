import EnvClient.Proofs.Definition
import EnvClient.Proofs.Json.Recovery
import Mathlib.Data.List.Nodup

/-! The values section of a definition against the object that it is read from. Each member is
either the content of a section or kept beside the sections, and all that is not written again is
a section that was null. -/
namespace EnvClient

open Json (Reader Result Doc DocMembers member?)

namespace Json

def sectionEntries? : Json → Option (Option (Members Json))
  | null => some none
  | object members => some (some members)
  | _ => none

theorem sectionEntries?_eq_some_iff {j : Json} {entries : Option (Members Json)} :
    j.sectionEntries? = some entries ↔
      j = .null ∧ entries = none ∨ ∃ members, j = .object members ∧ entries = some members := by
  cases j <;> simp [sectionEntries?, eq_comm]

def Doc.Once (name : String) : Doc → Prop
  | object members => members.Once name
  | _ => True

theorem DocMembers.once_ofJson {members : List (String × Json)}
    (hdistinct : (Members.names members).Nodup) (name : String) :
    (DocMembers.ofJson members).Once name := by
  induction members with
  | nil => trivial
  | cons member rest ih =>
    obtain ⟨hfresh, hdistinct⟩ := List.nodup_cons.mp hdistinct
    refine ⟨?_, ih hdistinct⟩
    rintro rfl
    exact find?_ofJson_eq_none hfresh

theorem Doc.once_ofJson {j : Json} (h : j.Sorted) (name : String) : (ofJson j).Once name := by
  cases j with
  | object members => exact DocMembers.once_ofJson (sorted_object.mp h).1.nodup_names name
  | _ => trivial

theorem DocMembers.get?_values {depth : Nat} {m m' : Members Json} {name : String} :
    ∀ {docs : DocMembers}, docs.values depth m = .ok m' → docs.find? name = none →
      Members.get? name m' = Members.get? name m
  | .done, h, _ => by
    cases h
    rfl
  | .member (some other) doc rest, h, hfind => by
    obtain ⟨value, -, h⟩ := Result.bind_eq_ok.mp h
    have hne : other ≠ name := by
      rintro rfl
      rw [find?, if_pos rfl] at hfind
      cases hfind
    rw [find?, if_neg hne] at hfind
    rw [get?_values h hfind, Members.get?_insert, if_neg (Ne.symm hne)]

end Json

namespace Values

theorem readSection_eq_ok_iff {depth : Nat} {doc : Doc} {j : Json} (h : doc.value depth = .ok j)
    {entries : Option (Members Json)} :
    Reader.option (Reader.map Reader.json) depth doc = .ok entries ↔
      j.sectionEntries? = some entries := by
  cases doc with
  | null =>
    cases h
    exact ⟨fun heq => congrArg some (Except.ok.inj heq), fun heq => congrArg _ (Option.some.inj heq)⟩
  | bool value =>
    cases h
    exact ⟨nofun, nofun⟩
  | number value =>
    cases value with
    | none => cases h
    | some value =>
      cases h
      exact ⟨nofun, nofun⟩
  | string value =>
    cases value with
    | none => cases h
    | some value =>
      cases h
      exact ⟨nofun, nofun⟩
  | array items =>
    change Reader.json depth (.array items) = _ at h
    rw [Reader.json_array] at h
    obtain ⟨values, -, rfl⟩ := Result.map_eq_ok.mp h
    exact ⟨nofun, nofun⟩
  | object members =>
    change Reader.json depth (.object members) = _ at h
    rw [Reader.json_object] at h
    obtain ⟨m, hm, rfl⟩ := Result.map_eq_ok.mp h
    change some <$> Reader.map Reader.json depth (.object members) = _ ↔ _
    rw [hm]
    exact ⟨fun heq => congrArg some (Except.ok.inj heq), fun heq => congrArg _ (Option.some.inj heq)⟩
  | broken fault => cases h

theorem Section.name_inj {s other : Section} : s.name = other.name ↔ s = other := by
  cases s <;> cases other <;> decide

theorem Section.eq_of_ofName? {name : String} {s : Section} (h : ofName? name = some s) :
    s.name = name := by
  have hfound := List.find?_some h
  exact beq_iff_eq.mp hfound

namespace Partial

/-- The members met so far are split: those of a section's name are sections, which may be null,
and the others are kept as they are. -/
structure Splits (p : Partial) (m : Members Json) : Prop where
  sections : ∀ s : Section,
    (p.section? s).map some = (Members.get? s.name m).map Json.sectionEntries?
  others : ∀ name, Section.ofName? name = none → Members.get? name p.others = Members.get? name m

variable {p : Partial} {m : Members Json}

theorem splits_empty : empty.Splits [] :=
  ⟨fun _ => rfl, fun _ _ => rfl⟩

theorem Splits.addSection (h : p.Splits m) {s : Section} {j : Json}
    {entries : Option (Members Json)} (hj : j.sectionEntries? = some entries) :
    ({ p with sections := (s, entries) :: p.sections } : Partial).Splits
      (Members.insert s.name j m) := by
  refine ⟨fun other => ?_, fun name hname => ?_⟩
  · rw [section?, List.lookup_cons, Members.get?_insert]
    by_cases heq : other = s
    · subst heq
      rw [beq_self_eq_true, if_pos rfl, Option.map_some, ← hj]
      rfl
    · rw [beq_eq_false_iff_ne.mpr heq, if_neg (Section.name_inj.not.mpr heq)]
      exact h.sections other
  · rw [Members.get?_insert, if_neg fun heq => Section.ofName?_eq_none_iff.mp hname s heq.symm]
    exact h.others name hname

theorem Splits.addOther (h : p.Splits m) {name : String} (hname : Section.ofName? name = none)
    (j : Json) :
    ({ p with others := Members.insert name j p.others } : Partial).Splits
      (Members.insert name j m) := by
  refine ⟨fun s => ?_, fun other hother => ?_⟩
  · rw [Members.get?_insert, if_neg (Section.ofName?_eq_none_iff.mp hname s)]
    exact h.sections s
  · rw [Members.get?_insert, Members.get?_insert, h.others other hother]

end Partial

theorem splits_readMembers {depth : Nat} {p p' : Partial} {m m' : Members Json} {docs : DocMembers}
    (hp : p.Splits m) (hvalues : docs.values depth m = .ok m')
    (h : readMembers depth p docs = .ok p') : p'.Splits m' := by
  fun_induction readMembers depth p docs generalizing m with
  | case1 p =>
    cases h
    cases hvalues
    exact hp
  | case2 => cases h
  | case3 => cases h
  | case4 p name doc rest s hname hmet ih =>
    obtain ⟨entries, hentries, h⟩ := Json.Result.bind_eq_ok.mp h
    obtain ⟨j, hj, hvalues⟩ := Json.Result.bind_eq_ok.mp hvalues
    obtain rfl := Section.eq_of_ofName? hname
    exact ih entries (hp.addSection ((readSection_eq_ok_iff hj).mp hentries)) hvalues h
  | case5 p name doc rest hname ih =>
    obtain ⟨j, hj, h⟩ := Json.Result.bind_eq_ok.mp h
    obtain ⟨j', hj', hvalues⟩ := Json.Result.bind_eq_ok.mp hvalues
    cases hj.symm.trans hj'
    exact ih j (hp.addOther hname j) hvalues h
  | case6 => cases h

theorem readMembers_of_sections {depth : Nat} {p : Partial} {m m' : Members Json}
    {docs : DocMembers} (hvalues : docs.values depth m = .ok m')
    (honce : ∀ s : Section, docs.Once s.name)
    (hmet : ∀ s : Section, p.section? s ≠ none → docs.find? s.name = none)
    (hsections : ∀ (s : Section) (j : Json), Members.get? s.name m' = some j →
      j.sectionEntries? ≠ none) : ∃ p', readMembers depth p docs = .ok p' := by
  fun_induction readMembers depth p docs generalizing m with
  | case1 p => exact ⟨p, rfl⟩
  | case2 => cases hvalues
  | case3 p name doc rest s hname hagain =>
    have hfind := hmet s (Option.isSome_iff_ne_none.mp hagain)
    rw [DocMembers.find?, if_pos (Section.eq_of_ofName? hname).symm] at hfind
    cases hfind
  | case4 p name doc rest s hname hfirst ih =>
    obtain ⟨j, hj, hvalues⟩ := Json.Result.bind_eq_ok.mp hvalues
    obtain rfl := Section.eq_of_ofName? hname
    have hrest : rest.find? s.name = none := (honce s).1 rfl
    have hget := DocMembers.get?_values hvalues hrest
    rw [Members.get?_insert, if_pos rfl] at hget
    obtain ⟨entries, hentries⟩ := Option.ne_none_iff_exists'.mp (hsections s j hget)
    rw [(readSection_eq_ok_iff hj).mpr hentries]
    refine ih entries hvalues (fun other => (honce other).2) fun other hother => ?_
    by_cases heq : other = s
    · exact heq ▸ hrest
    · have hne : s.name ≠ other.name := fun h => heq (Section.name_inj.mp h).symm
      rw [Partial.section?, List.lookup_cons, beq_eq_false_iff_ne.mpr heq] at hother
      have hfind := hmet other hother
      rwa [DocMembers.find?, if_neg hne] at hfind
  | case5 p name doc rest hname ih =>
    obtain ⟨j, hj, hvalues⟩ := Json.Result.bind_eq_ok.mp hvalues
    rw [hj]
    refine ih j hvalues (fun other => (honce other).2) fun other hother => ?_
    have hfind := hmet other hother
    rwa [DocMembers.find?, if_neg (Section.ofName?_eq_none_iff.mp hname other).symm] at hfind
  | case6 => cases hvalues

theorem mem_member? {α : Type} {name : String} {write : α → Json} {found : Option α}
    {member : String × Json} :
    member ∈ member? name write found ↔ ∃ value, found = some value ∧ member = (name, write value) := by
  cases found <;> simp [member?]

theorem mem_toMembers {v : Values} {name : String} {value : Json} :
    (name, value) ∈ v.toMembers ↔
      (∃ (s : Section) (members : Members Json),
        v.get s = some members ∧ name = s.name ∧ value = .object members) ∨
      (name, value) ∈ v.others := by
  simp only [toMembers, List.mem_append, mem_member?, Prod.mk.injEq]
  refine or_congr_left ⟨?_, ?_⟩
  · rintro ((hconfig | henvironment) | hfiles)
    · exact ⟨.config, hconfig⟩
    · exact ⟨.environment, henvironment⟩
    · exact ⟨.files, hfiles⟩
  · rintro ⟨s, hsection⟩
    cases s with
    | config => exact .inl (.inl hsection)
    | environment => exact .inl (.inr hsection)
    | files => exact .inr hsection

theorem nodup_toMembers {v : Values} (hapart : v.Apart) (hothers : Members.Sorted v.others) :
    (Members.names v.toMembers).Nodup := by
  have hsublist {name : String} (found : Option (Members Json)) :
      (Members.names (member? name Json.object found)).Sublist [name] := by
    cases found with
    | none => exact List.nil_sublist _
    | some members => exact List.Sublist.refl _
  have hsections : (Members.names (member? Section.config.name .object v.config ++
      member? Section.environment.name .object v.environment ++
      member? Section.files.name .object v.files)).Sublist
        [Section.config.name, Section.environment.name, Section.files.name] := by
    unfold Members.names
    rw [List.map_append, List.map_append]
    exact ((hsublist v.config).append (hsublist v.environment)).append (hsublist v.files)
  rw [toMembers, Members.names, List.map_append, List.nodup_append]
  refine ⟨hsections.nodup (by decide), hothers.nodup_names, fun name hname other hother heq => ?_⟩
  subst heq
  have hmem := hsections.subset hname
  simp only [List.mem_cons, List.not_mem_nil, or_false] at hmem
  rcases hmem with rfl | rfl | rfl
  · exact hapart .config hother
  · exact hapart .environment hother
  · exact hapart .files hother

/-- Whether the member is a section that holds nothing. -/
def isNullSection (member : String × Json) : Bool :=
  (Section.ofName? member.1).isSome && decide (member.2 = .null)

theorem Partial.Splits.exists_section_iff {p : Partial} {m : Members Json} (h : p.Splits m)
    {s : Section} {value : Json} :
    (∃ (other : Section) (members : Members Json), p.toValues.get other = some members ∧
      s.name = other.name ∧ value = .object members) ↔
      Members.get? s.name m = some value ∧ value ≠ .null := by
  have hsection := h.sections s
  constructor
  · rintro ⟨other, members, hget, hname, rfl⟩
    obtain rfl := Section.name_inj.mp hname
    rw [get_toValues, get, Option.join_eq_some_iff] at hget
    rw [hget, Option.map_some] at hsection
    obtain ⟨j, hj, hentries⟩ := Option.map_eq_some_iff.mp hsection.symm
    rcases Json.sectionEntries?_eq_some_iff.mp hentries with ⟨-, heq⟩ | ⟨_, rfl, heq⟩
    · cases heq
    · cases heq
      exact ⟨hj, Json.object_ne_null members⟩
  · rintro ⟨hvalue, hnull⟩
    rw [hvalue, Option.map_some] at hsection
    obtain ⟨entries, hmet, hentries⟩ := Option.map_eq_some_iff.mp hsection
    rcases Json.sectionEntries?_eq_some_iff.mp hentries.symm with ⟨heq, -⟩ | ⟨members, rfl, rfl⟩
    · exact absurd heq hnull
    · exact ⟨s, members, by rw [get_toValues, get, hmet]; rfl, rfl, rfl⟩

/-- Members that are split are written again, less the sections that were null. -/
theorem Partial.Splits.perm {p : Partial} {m : Members Json} (h : p.Splits m)
    (hm : Members.Sorted m) (hothers : Members.Sorted p.others) (hapart : p.toValues.Apart) :
    p.toValues.toMembers.Perm (m.filter fun member => !isNullSection member) := by
  have hnodup := nodup_toMembers hapart hothers
  have hsorted : Members.Sorted (m.filter fun member => !isNullSection member) :=
    hm.sublist List.filter_sublist
  refine (List.perm_ext_iff_of_nodup (List.Nodup.of_map _ hnodup)
    (List.Nodup.of_map _ hsorted.nodup_names)).mpr fun member => ?_
  obtain ⟨name, value⟩ := member
  rw [mem_toMembers, List.mem_filter, Members.mem_iff_get? hm.nodup_names, isNullSection]
  change _ ∨ (name, value) ∈ p.others ↔ _
  rw [Members.mem_iff_get? hothers.nodup_names]
  cases hname : Section.ofName? name with
  | none =>
    have hne := Section.ofName?_eq_none_iff.mp hname
    rw [h.others name hname]
    simpa using fun s _ _ heq => absurd heq.symm (hne s)
  | some s =>
    obtain rfl := Section.eq_of_ofName? hname
    have hfree : Members.get? s.name p.others = none := Members.get?_eq_none_iff.mpr (hapart s)
    rw [hfree, or_iff_left nofun, h.exists_section_iff]
    cases value <;> simp

structure Holds (depth : Nat) (doc : Doc) (v : Json) : Prop where
  value : doc.value depth = .ok v
  once : ∀ s : Section, doc.Once s.name

theorem holds_ofJson {v : Json} (h : v.Sorted) : Holds v.nesting (.ofJson v) v :=
  ⟨Reader.recovers_json h v.nesting (Nat.le_refl _), fun s => Doc.once_ofJson h s.name⟩

theorem exists_object_of_read {depth : Nat} {doc : Doc} {v : Json} {values : Values}
    (hvalue : doc.value depth = .ok v) (h : read depth doc = .ok values) :
    ∃ (below : Nat) (docs : DocMembers) (members : Members Json) (p : Partial),
      depth = below + 1 ∧ doc = .object docs ∧ v = .object members ∧
      docs.values below [] = .ok members ∧ readMembers below .empty docs = .ok p ∧
      values = p.toValues := by
  unfold read at h
  split at h
  · cases depth with
    | zero => cases h
    | succ below =>
      obtain ⟨p, hp, rfl⟩ := Json.Result.map_eq_ok.mp h
      obtain ⟨members, hmembers, rfl⟩ := Json.Result.map_eq_ok.mp hvalue
      exact ⟨below, _, members, p, rfl, rfl, rfl, hmembers, hp, rfl⟩
  · exact absurd h Json.Doc.unexpected_ne_ok

theorem exists_read {depth : Nat} {doc : Doc} {members : Members Json}
    (h : Holds depth doc (.object members))
    (hsections : ∀ (s : Section) (j : Json), Members.get? s.name members = some j →
      j.sectionEntries? ≠ none) : ∃ values, read depth doc = .ok values := by
  obtain ⟨hvalue, honce⟩ := h
  cases doc with
  | object docs =>
    cases depth with
    | zero => cases hvalue
    | succ below =>
      obtain ⟨found, hfound, heq⟩ := Json.Result.map_eq_ok.mp hvalue
      cases heq
      obtain ⟨p, hp⟩ := readMembers_of_sections hfound honce
        (fun s hs => absurd (Partial.section?_empty s) hs) hsections
      exact ⟨p.toValues, Json.Result.map_eq_ok.mpr ⟨p, hp, rfl⟩⟩
  | null => cases hvalue
  | bool value => cases hvalue
  | number value => cases value <;> cases hvalue
  | string value => cases value <;> cases hvalue
  | array items =>
    change Reader.json depth (.array items) = _ at hvalue
    rw [Reader.json_array] at hvalue
    obtain ⟨_, -, heq⟩ := Json.Result.map_eq_ok.mp hvalue
    cases heq
  | broken fault => cases hvalue

/-- Every value can be had, and is read as the values of a definition exactly if it is an object in
which each section is absent, null or an object. What is written again are its members, each of
them once, less the sections that were null, and no other value has the name of a section. -/
theorem read_keeps_members {v : Json} (hv : v.Sorted) :
    (∃ depth doc, Holds depth doc v) ∧ ∀ {depth : Nat} {doc : Doc}, Holds depth doc v →
      ((∃ values, read depth doc = .ok values) ↔ ∃ members, v = .object members ∧
        ∀ (s : Section) (j : Json), Members.get? s.name members = some j →
          j = .null ∨ ∃ entries, j = .object entries) ∧
      ∀ values, read depth doc = .ok values → ∃ members, v = .object members ∧
        values.toMembers.Perm (members.filter fun member => !isNullSection member) ∧
        (Members.names values.toMembers).Nodup ∧
        Members.ofList values.toMembers = members.filter (fun member => !isNullSection member) ∧
        values.Apart := by
  have hentries {j : Json} : j.sectionEntries? ≠ none ↔ j = .null ∨ ∃ entries, j = .object entries := by
    cases j <;> simp [Json.sectionEntries?]
  refine ⟨⟨_, _, holds_ofJson hv⟩, fun {depth doc} h => ⟨⟨?_, ?_⟩, ?_⟩⟩
  · rintro ⟨values, hread⟩
    obtain ⟨below, docs, members, p, rfl, rfl, rfl, hvalues, hp, rfl⟩ :=
      exists_object_of_read h.value hread
    have hsplits := splits_readMembers Partial.splits_empty hvalues hp
    refine ⟨members, rfl, fun s j hget => hentries.mp fun hnone => ?_⟩
    have hsection := hsplits.sections s
    rw [hget, Option.map_some, hnone] at hsection
    obtain ⟨_, -, heq⟩ := Option.map_eq_some_iff.mp hsection
    cases heq
  · rintro ⟨members, rfl, hsections⟩
    exact exists_read h fun s j hget => hentries.mpr (hsections s j hget)
  · intro values hread
    obtain ⟨_, -, hfits, hapart⟩ := fits_read hread
    obtain ⟨below, docs, members, p, rfl, rfl, rfl, hvalues, hp, rfl⟩ :=
      exists_object_of_read h.value hread
    have hsorted : Members.Sorted members := (Json.sorted_object.mp hv).1
    have hothers : Members.Sorted p.others := (Json.sorted_object.mp hfits.others.sorted).1
    have hkept : Members.Sorted (members.filter fun member => !isNullSection member) :=
      hsorted.sublist List.filter_sublist
    have hperm := (splits_readMembers Partial.splits_empty hvalues hp).perm hsorted hothers hapart
    exact ⟨members, rfl, hperm, nodup_toMembers hapart hothers, hkept.ofList_eq hperm, hapart⟩

/-- A null section, a name that is one's but for its case, and nulls further down. -/
theorem read_keeps_members_null :
    let doc : Doc := .object <| .member (some "files") .null <|
      .member (some "Files") (.array (.item .null .done)) <|
      .member (some "environmentVariables") (.object (.member (some "A") .null .done)) .done
    let v : Json := .object [("Files", .array [.null]),
      ("environmentVariables", .object [("A", .null)]), ("files", .null)]
    Holds 2 doc v ∧ ∃ values, read 2 doc = .ok values ∧
      Members.ofList values.toMembers = [("Files", .array [.null]),
        ("environmentVariables", .object [("A", .null)])] ∧ values.Apart := by
  intro doc v
  have hv : v.Sorted := by decide
  have h : Holds 2 doc v := by
    refine ⟨rfl, fun s => ?_⟩
    cases s <;> simp [doc, Doc.Once, DocMembers.Once, DocMembers.find?, Section.name]
  have hread : read 2 doc = .ok ⟨none, some [("A", .null)], none, [("Files", .array [.null])]⟩ := rfl
  obtain ⟨members, heq, -, -, hwritten, hapart⟩ := ((read_keeps_members hv).2 h).2 _ hread
  obtain rfl := Json.object.inj heq
  exact ⟨h, _, hread, hwritten, hapart⟩

end Values
end EnvClient

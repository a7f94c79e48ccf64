import EnvClient.Model.DefinitionText
import EnvClient.Proofs.Fields
import EnvClient.Proofs.Yaml.Value

/-! Definitions as texts. What is read from a text has sorted maps, is nested no deeper than can
be read, and keeps its sections apart from the other values; every such definition is read back
from the text that it is written as. -/
namespace EnvClient

open Json (Fields Reader Result Doc DocMembers member?)
open Yaml (Node Document nodeOf memberNodes itemNodes textNode)
open Yaml.Node (json?_nodeOf jsonEntries?_memberNodes key?_textNode)

theorem Json.forall_mem_member? {α : Type} {name : String} {write : α → Json} {found : Option α}
    {P : String × Json → Prop} :
    (∀ member ∈ member? name write found, P member) ↔ ∀ value ∈ found, P (name, write value) := by
  cases found with
  | none => simp [member?]
  | some value => simp [member?]

namespace Values

namespace Section

@[simp] theorem ofName?_name (s : Section) : ofName? s.name = some s := by
  cases s <;> rfl

theorem ofName?_eq_none_iff {name : String} : ofName? name = none ↔ ∀ s : Section, s.name ≠ name := by
  constructor
  · rintro h s rfl
    rw [ofName?_name] at h
    cases h
  · intro h
    refine List.find?_eq_none.mpr fun s _ hname => h s (beq_iff_eq.mp hname)

end Section

def get (v : Values) : Section → Option (Members Json)
  | .config => v.config
  | .environment => v.environment
  | .files => v.files

structure Sorted (v : Values) : Prop where
  sections : ∀ s, ∀ members ∈ v.get s, (Json.object members).Sorted
  others : (Json.object v.others).Sorted

/-- No other value has the name of a section. -/
def Apart (v : Values) : Prop := ∀ s : Section, s.name ∉ Members.names v.others

/-- Values that a reader may give which may go down so many levels below them. -/
structure Fits (depth : Nat) (v : Values) : Prop where
  sections : ∀ s, ∀ members ∈ v.get s, (Json.object members).Fits depth
  others : (Json.object v.others).Fits (depth + 1)

theorem Fits.mono {v : Values} {depth depth' : Nat} (h : v.Fits depth) (hle : depth ≤ depth') :
    v.Fits depth' :=
  ⟨fun s members hmem => (h.sections s members hmem).mono hle,
    h.others.mono (Nat.succ_le_succ hle)⟩

theorem forall_mem_toMembers {v : Values} {P : Json → Prop} :
    (∀ member ∈ v.toMembers, P member.2) ↔
      (∀ s, ∀ members ∈ v.get s, P (.object members)) ∧ ∀ member ∈ v.others, P member.2 := by
  rw [toMembers, List.forall_mem_append, List.forall_mem_append, List.forall_mem_append,
    Json.forall_mem_member?, Json.forall_mem_member?, Json.forall_mem_member?]
  constructor
  · rintro ⟨⟨⟨hconfig, henvironment⟩, hfiles⟩, hothers⟩
    refine ⟨fun s => ?_, hothers⟩
    cases s with
    | config => exact hconfig
    | environment => exact henvironment
    | files => exact hfiles
  · rintro ⟨hsections, hothers⟩
    exact ⟨⟨⟨hsections .config, hsections .environment⟩, hsections .files⟩, hothers⟩

theorem fits_iff {v : Values} {depth : Nat} :
    v.Fits depth ↔ v.Sorted ∧ v.toJson.nesting ≤ depth + 1 := by
  rw [toJson, Json.nesting_object_le_succ, @forall_mem_toMembers v (·.nesting ≤ depth)]
  constructor
  · intro h
    exact ⟨⟨fun s members hmem => (h.sections s members hmem).sorted, h.others.sorted⟩,
      fun s members hmem => (h.sections s members hmem).nesting_le,
      Json.nesting_object_le_succ.mp h.others.nesting_le⟩
  · intro ⟨hsorted, hsections, hothers⟩
    exact ⟨fun s members hmem => ⟨hsorted.sections s members hmem, hsections s members hmem⟩,
      hsorted.others, Json.nesting_object_le_succ.mpr hothers⟩

namespace Partial

variable {p : Partial} {depth : Nat}

theorem get_toValues (p : Partial) (s : Section) : p.toValues.get s = p.get s := by
  cases s <;> rfl

theorem fits_empty (depth : Nat) : empty.toValues.Fits depth := by
  refine ⟨fun s members hmem => ?_, Json.fits_empty depth⟩
  rw [get_toValues] at hmem
  cases hmem

theorem apart_empty : empty.toValues.Apart := fun _ => List.not_mem_nil

theorem fits_section (h : p.toValues.Fits depth) (s : Section) {entries : Option (Members Json)}
    (hentries : ∀ members ∈ entries, (Json.object members).Fits depth) :
    ({ p with sections := (s, entries) :: p.sections } : Partial).toValues.Fits depth := by
  refine ⟨fun other members hmem => ?_, h.others⟩
  have hold := h.sections other members
  rw [get_toValues, get, section?] at hmem hold
  rw [List.lookup_cons] at hmem
  split at hmem
  · exact hentries members hmem
  · exact hold hmem

theorem fits_other (h : p.toValues.Fits depth) (name : String) {value : Json}
    (hvalue : value.Fits depth) :
    ({ p with others := Members.insert name value p.others } : Partial).toValues.Fits depth :=
  ⟨h.sections, h.others.insert hvalue name⟩

theorem apart_other (h : p.toValues.Apart) {name : String} (hname : Section.ofName? name = none)
    (value : Json) :
    ({ p with others := Members.insert name value p.others } : Partial).toValues.Apart := by
  intro s hmem
  cases Members.mem_names_insert.mp hmem with
  | inl heq => exact Section.ofName?_eq_none_iff.mp hname s heq
  | inr hold => exact h s hold

end Partial

namespace Partial

variable {p : Partial}

def pass (p : Partial) (s : Section) : Option (Members Json) → Partial
  | some members => { p with sections := (s, some members) :: p.sections }
  | none => p

@[simp] theorem section?_empty (s : Section) : empty.section? s = none := rfl

@[simp] theorem section?_pass_of_ne {s other : Section} (h : s ≠ other)
    (found : Option (Members Json)) : (p.pass other found).section? s = p.section? s := by
  cases found with
  | none => rfl
  | some members => rw [pass, section?, section?, List.lookup_cons, beq_eq_false_iff_ne.mpr h]

@[simp] theorem others_pass (s : Section) (found : Option (Members Json)) :
    (p.pass s found).others = p.others := by
  cases found <;> rfl

end Partial

def passed (v : Values) : Partial :=
  ((Partial.empty.pass .config v.config).pass .environment v.environment).pass .files v.files

@[simp] theorem others_passed (v : Values) : v.passed.others = [] := by
  simp [passed, Partial.empty]

theorem toValues_passed (v : Values) :
    ({ v.passed with others := v.others } : Partial).toValues = v := by
  obtain ⟨config, environment, files, others⟩ := v
  cases config <;> cases environment <;> cases files <;> rfl

theorem Apart.ofName?_eq_none {v : Values} (h : v.Apart) :
    ∀ name ∈ Members.names v.others, Section.ofName? name = none := fun _ hmem =>
  Section.ofName?_eq_none_iff.mpr fun s heq => h s (heq ▸ hmem)

theorem fits_readMap {depth : Nat} {doc : Doc} {members : Members Json}
    (h : Reader.map Reader.json depth doc = .ok members) : (Json.object members).Fits depth := by
  unfold Reader.map at h
  split at h
  · cases depth with
    | zero => cases h
    | succ below =>
      exact Json.fits_object_succ.mpr
        (Reader.members_yields (fun _ _ => Doc.value_fits) Members.sorted_nil nofun h)
  · exact absurd h Doc.unexpected_ne_ok

theorem fits_readSection {depth : Nat} {doc : Doc} {entries : Option (Members Json)}
    (h : Reader.option (Reader.map Reader.json) depth doc = .ok entries) :
    ∀ members ∈ entries, (Json.object members).Fits depth := by
  unfold Reader.option at h
  split at h
  · cases h
    exact nofun
  · obtain ⟨members, hmembers, rfl⟩ := Result.map_eq_ok.mp h
    intro found hmem
    cases hmem
    exact fits_readMap hmembers

theorem fits_readMembers {depth : Nat} {p p' : Partial} {docs : DocMembers}
    (hp : p.toValues.Fits depth ∧ p.toValues.Apart) (h : readMembers depth p docs = .ok p') :
    p'.toValues.Fits depth ∧ p'.toValues.Apart := by
  fun_induction readMembers depth p docs with
  | case1 p =>
    cases h
    exact hp
  | case2 => cases h
  | case3 => cases h
  | case4 p name doc rest s hname hmet ih =>
    obtain ⟨entries, hentries, h⟩ := Result.bind_eq_ok.mp h
    exact ih entries ⟨Partial.fits_section hp.1 s (fits_readSection hentries), hp.2⟩ h
  | case5 p name doc rest hname ih =>
    obtain ⟨value, hvalue, h⟩ := Result.bind_eq_ok.mp h
    exact ih value ⟨Partial.fits_other hp.1 name (Doc.value_fits hvalue),
      Partial.apart_other hp.2 hname value⟩ h
  | case6 => cases h

theorem fits_read {depth : Nat} {doc : Doc} {v : Values} (h : read depth doc = .ok v) :
    ∃ below, depth = below + 1 ∧ v.Fits below ∧ v.Apart := by
  unfold read at h
  split at h
  · cases depth with
    | zero => cases h
    | succ below =>
      obtain ⟨p, hp, rfl⟩ := Result.map_eq_ok.mp h
      exact ⟨below, rfl, fits_readMembers ⟨Partial.fits_empty below, Partial.apart_empty⟩ hp⟩
  · exact absurd h Doc.unexpected_ne_ok

theorem fits_sectionOfYaml? {depth : Nat} {node : Node} {entries : Option (Members Json)}
    (h : sectionOfYaml? depth node = some entries) :
    ∀ members ∈ entries, (Json.object members).Fits depth := by
  unfold sectionOfYaml? at h
  obtain ⟨absent, -, h⟩ := Option.bind_eq_some_iff.mp h
  split at h
  · cases h
    exact nofun
  cases depth with
  | zero => cases h
  | succ below =>
    obtain ⟨nodes, -, h⟩ := Option.bind_eq_some_iff.mp h
    obtain ⟨members, hmembers, rfl⟩ := Option.map_eq_some_iff.mp h
    intro found hmem
    cases hmem
    exact Node.fits_jsonEntries? nodes (Json.fits_empty below) hmembers

theorem fits_membersOfYaml? {depth : Nat} {p p' : Partial} {entries : List (Node × Node)}
    (hp : p.toValues.Fits depth ∧ p.toValues.Apart) (h : membersOfYaml? depth p entries = some p') :
    p'.toValues.Fits depth ∧ p'.toValues.Apart := by
  induction entries generalizing p with
  | nil =>
    cases h
    exact hp
  | cons entry rest ih =>
    obtain ⟨key, value⟩ := entry
    rw [membersOfYaml?] at h
    obtain ⟨name, -, h⟩ := Option.bind_eq_some_iff.mp h
    split at h
    · rename_i s _
      split at h
      · cases h
      obtain ⟨found, hfound, h⟩ := Option.bind_eq_some_iff.mp h
      exact ih ⟨Partial.fits_section hp.1 s (fits_sectionOfYaml? hfound), hp.2⟩ h
    · rename_i hname
      obtain ⟨j, hj, h⟩ := Option.bind_eq_some_iff.mp h
      exact ih ⟨Partial.fits_other hp.1 name (Node.fits_json? value hj),
        Partial.apart_other hp.2 hname j⟩ h

theorem fits_ofYaml? {depth : Nat} {node : Node} {v : Values}
    (h : ofYaml? depth node = some (some v)) :
    ∃ below, depth = below + 1 ∧ v.Fits below ∧ v.Apart := by
  unfold ofYaml? at h
  obtain ⟨absent, -, h⟩ := Option.bind_eq_some_iff.mp h
  split at h
  · cases h
  cases depth with
  | zero => cases h
  | succ below =>
    obtain ⟨entries, -, h⟩ := Option.bind_eq_some_iff.mp h
    obtain ⟨p, hp, h⟩ := Option.map_eq_some_iff.mp h
    cases h
    exact ⟨below, rfl, fits_membersOfYaml? ⟨Partial.fits_empty below, Partial.apart_empty⟩ hp⟩

end Values

namespace Definition

def Sorted (d : Definition) : Prop := ∀ values ∈ d.values, values.Sorted

/-- No value beside the sections has the name of one. -/
def Apart (d : Definition) : Prop := ∀ values ∈ d.values, values.Apart

theorem nesting_le_iff {d : Definition} {depth : Nat} :
    d.toJson.nesting ≤ depth + 2 ↔ ∀ values ∈ d.values, values.toJson.nesting ≤ depth + 1 := by
  have himports : (Json.array (d.imports.map .string)).nesting ≤ depth + 1 := by
    refine Json.nesting_array_le_succ.mpr fun item hmem => ?_
    obtain ⟨name, -, rfl⟩ := List.mem_map.mp hmem
    exact Nat.zero_le _
  rw [toJson, Json.nesting_object_le_succ, List.forall_mem_append, Json.forall_mem_member?]
  refine and_iff_right_of_imp fun _ member hmem => ?_
  split at hmem
  · cases hmem
  · cases List.mem_singleton.mp hmem
    exact himports

theorem sorted_and_nesting_le_iff {d : Definition} {depth : Nat} :
    d.Sorted ∧ d.toJson.nesting ≤ depth + 2 ↔ ∀ values ∈ d.values, values.Fits depth := by
  rw [nesting_le_iff, Sorted]
  constructor
  · intro ⟨hsorted, hnesting⟩ values hmem
    exact Values.fits_iff.mpr ⟨hsorted values hmem, hnesting values hmem⟩
  · intro h
    exact ⟨fun values hmem => (Values.fits_iff.mp (h values hmem)).1,
      fun values hmem => (Values.fits_iff.mp (h values hmem)).2⟩

/-- What every definition satisfies that was read: its values are two levels down. -/
def Readable (d : Definition) : Prop :=
  ∀ values ∈ d.values, values.Fits (Yaml.maxDepth - 2) ∧ values.Apart

theorem fits_read {depth : Nat} {doc : Doc} {d : Definition} (h : read (depth + 2) doc = .ok d) :
    ∀ values ∈ d.values, values.Fits depth ∧ values.Apart := by
  obtain ⟨⟨imports, values, _⟩, hrow, h⟩ := Result.bind_eq_ok.mp h
  cases h
  obtain ⟨below, hbelow, -, hvalues, -⟩ := Fields.givesAt_read (by decide) hrow
  cases hbelow
  intro v hmem
  cases hmem
  obtain ⟨doc, hread⟩ := hvalues.exists_read
  obtain ⟨_, hdepth, hv⟩ := Values.fits_read hread
  cases hdepth
  exact hv

theorem fits_membersOfYaml? {document : Document} {depth : Nat} {p p' : Partial}
    {entries : List (Node × Node)} {budget : Node.Budget}
    (hp : ∀ values ∈ p.values.join, values.Fits depth ∧ values.Apart)
    (h : membersOfYaml? document (depth + 1) p entries budget = some p') :
    ∀ values ∈ p'.values.join, values.Fits depth ∧ values.Apart := by
  induction entries generalizing p budget with
  | nil =>
    cases h
    exact hp
  | cons entry rest ih =>
    obtain ⟨key, value⟩ := entry
    rw [membersOfYaml?] at h
    obtain ⟨⟨key, budget⟩, -, h⟩ := Option.bind_eq_some_iff.mp h
    obtain ⟨name, -, h⟩ := Option.bind_eq_some_iff.mp h
    split at h
    · obtain ⟨⟨value, budget⟩, -, h⟩ := Option.bind_eq_some_iff.mp h
      obtain ⟨imports, -, h⟩ := Option.bind_eq_some_iff.mp h
      split at h
      · cases h
      · exact @ih { p with imports := some imports } _ hp h
    split at h
    · obtain ⟨⟨value, budget⟩, -, h⟩ := Option.bind_eq_some_iff.mp h
      obtain ⟨values, hvalues, h⟩ := Option.bind_eq_some_iff.mp h
      split at h
      · cases h
      refine ih (fun v hmem => ?_) h
      cases hmem
      obtain ⟨_, hdepth, hv⟩ := Values.fits_ofYaml? hvalues
      cases hdepth
      exact hv
    · exact ih hp h

theorem readable_of_ofYaml? {text : String} {d : Definition} (h : ofYaml? text = some d) :
    d.Readable := by
  rw [ofYaml?] at h
  split at h
  · cases h
    exact nofun
  obtain ⟨document, -, h⟩ := Option.bind_eq_some_iff.mp h
  split at h
  · cases h
    exact nofun
  obtain ⟨entries, -, h⟩ := Option.bind_eq_some_iff.mp h
  obtain ⟨p, hp, h⟩ := Option.bind_eq_some_iff.mp h
  cases h
  exact fits_membersOfYaml? (fun _ hmem => by cases hmem) hp

theorem readable_of_decode {text : String} {d : Definition} (h : Json.decode read text = .ok d) :
    d.Readable := by
  have hread := Json.read_of_decode h
  intro values hmem
  obtain ⟨hfits, hapart⟩ := fits_read hread values hmem
  exact ⟨hfits.mono (by decide), hapart⟩

end Definition
end EnvClient

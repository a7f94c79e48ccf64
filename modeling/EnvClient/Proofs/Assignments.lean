import EnvClient.Proofs.Projection
import EnvClient.Proofs.Redaction

/-! Environments as assignments. With files left unwritten, what is shown of a variable is its
text or that it is secret, and nothing is shown of a file but its name. -/
namespace EnvClient

def Projected.shown (redact : Bool) (projected : Projected) : String :=
  if projected.secret && redact then Property.redacted else projected.text

def Projected.secretTexts (entries : Members Projected) : List String :=
  (entries.filter (·.2.secret)).map (·.2.text)

namespace Prepared

theorem foldl_addVariable (redact : Bool) (entries : Members Projected) (p : Prepared) :
    entries.foldl (addVariable redact) p =
      { p with
        assignments := p.assignments ++ Members.mapValues (Projected.shown redact) entries
        secrets := p.secrets ++ Projected.secretTexts entries } := by
  induction entries generalizing p with
  | nil => simp [Members.mapValues, Projected.secretTexts]
  | cons entry rest ih =>
    rw [List.foldl_cons, ih]
    cases hsecret : entry.2.secret <;>
      simp [addVariable, Projected.shown, Projected.secretTexts, Members.mapValues, hsecret]

theorem addFiles_pretend_eq (entries : Members Projected) (p : Prepared) (d : Disk) :
    p.addFiles true entries d = (.ok { p with
        assignments := p.assignments ++ Members.mapValues (fun _ => unknownPath) entries
        secrets := p.secrets ++ Projected.secretTexts entries }, d) := by
  induction entries generalizing p with
  | nil => simp [addFiles, Members.mapValues, Projected.secretTexts]
  | cons entry rest ih =>
    rw [addFiles, if_pos rfl, ih]
    cases hsecret : entry.2.secret <;>
      simp [addPath, Projected.secretTexts, Members.mapValues, hsecret]

end Prepared

theorem Property.scalarText?_core (p : Property) : p.core.scalarText? = p.resolve.scalarText? := by
  rw [resolve_eq_of_unwrap, ← scalarText?_eq_of_not_isEnvelope (isEnvelope_unwrap p), unwrap_fst]

namespace NamedProperties

def assignments (properties : NamedProperties) (redact : Bool) : List (String × String) :=
  Members.mapValues (Projected.shown redact) properties.environment ++
    Members.mapValues (fun _ => Prepared.unknownPath) properties.files

theorem prepare_pretend (properties : NamedProperties) (quote redact : Bool) (d : Disk) :
    properties.prepare ⟨quote, redact, true⟩ d = (.ok
      { quote := quote
        assignments := properties.assignments redact
        files := []
        secrets := Projected.secretTexts properties.environment ++
          Projected.secretTexts properties.files }, d) := by
  unfold prepare
  simp only [environment, files, Prepared.foldl_addVariable, Prepared.addFiles_pretend_eq]
  rfl

theorem write_pretend {format : Format} (hformat : format.isStructured = false)
    (properties : NamedProperties) (showSecrets : Bool) (d : Disk) :
    NamedProperties.write (some properties) ⟨format, showSecrets, true⟩ d =
      (.ok (Prepared.render ⟨true, properties.assignments !showSecrets, [], []⟩
        (format == .shell)), d) := by
  unfold NamedProperties.write
  rw [if_neg (by simp [hformat]), Option.getD_some, prepare_pretend]
  rfl

/-- The entry stands under the name in a section, in the mapping below the envelopes around it. -/
structure HasEntry (properties : NamedProperties) (key name : String) (record : Record)
    (entry : Property) : Prop where
  found : Members.get? key properties = some record
  inside : ∃ entries, record.value.core = .mapping entries ∧ Members.get? name entries = some entry

/-- Below its envelopes the entry of that name is a scalar with this text. -/
def HasText (properties : NamedProperties) (key name text : String) : Prop :=
  ∃ record entry, properties.HasEntry key name record entry ∧
    entry.core.scalarText? = some text

def HasScalar (properties : NamedProperties) (key name : String) : Prop :=
  ∃ text, properties.HasText key name text

/-- The record, some envelope around the section or some envelope around the entry is secret. -/
def IsSecret (properties : NamedProperties) (key name : String) : Prop :=
  ∃ record entry, properties.HasEntry key name record entry ∧
    (record.secret = some true ∨
      (∃ metadata ∈ record.value.layers, Property.MarksSecret metadata) ∨
      ∃ metadata ∈ entry.layers, Property.MarksSecret metadata)

/-- Environments whose variables have the same names, the same of them secret and the others the
same texts, and whose files have the same names. -/
structure PubliclyEqual (left right : NamedProperties) : Prop where
  names : ∀ name, left.HasScalar variablesKey name ↔ right.HasScalar variablesKey name
  secrets : ∀ name, left.HasScalar variablesKey name →
    (left.IsSecret variablesKey name ↔ right.IsSecret variablesKey name)
  texts : ∀ name text other, ¬ left.IsSecret variablesKey name →
    left.HasText variablesKey name text → right.HasText variablesKey name other → text = other
  files : ∀ name, left.HasScalar filesKey name ↔ right.HasScalar filesKey name

variable {properties left right : NamedProperties} {key name : String}

theorem HasEntry.unique {record other : Record} {entry entry' : Property}
    (h : properties.HasEntry key name record entry)
    (h' : properties.HasEntry key name other entry') : record = other ∧ entry = entry' := by
  obtain ⟨hrecord, entries, hcore, hentry⟩ := h
  obtain ⟨hother, entries', hcore', hentry'⟩ := h'
  cases hrecord.symm.trans hother
  cases hcore.symm.trans hcore'
  cases hentry.symm.trans hentry'
  exact ⟨rfl, rfl⟩

theorem secret_iff {record : Record} {entry : Property} :
    (record.isSecret || record.value.unwrap.2 || entry.unwrap.2) = true ↔
      record.secret = some true ∨
      (∃ metadata ∈ record.value.layers, Property.MarksSecret metadata) ∨
      ∃ metadata ∈ entry.layers, Property.MarksSecret metadata := by
  rw [Bool.or_eq_true, Bool.or_eq_true, Record.isSecret_iff, Property.unwrap_eq,
    Property.unwrap_eq, List.any_eq_true, List.any_eq_true, or_assoc]
  simp only [Property.flagged_secretKey_iff]

theorem HasEntry.isSecret_iff {record : Record} {entry : Property}
    (h : properties.HasEntry key name record entry) :
    properties.IsSecret key name ↔
      (record.isSecret || record.value.unwrap.2 || entry.unwrap.2) = true := by
  rw [secret_iff]
  constructor
  · rintro ⟨other, entry', hother, hsecret⟩
    obtain ⟨rfl, rfl⟩ := h.unique hother
    exact hsecret
  · exact fun hsecret => ⟨record, entry, h, hsecret⟩

theorem HasEntry.hasText_iff {record : Record} {entry : Property} {text : String}
    (h : properties.HasEntry key name record entry) :
    properties.HasText key name text ↔ entry.core.scalarText? = some text := by
  constructor
  · rintro ⟨other, entry', hother, htext⟩
    obtain ⟨rfl, rfl⟩ := h.unique hother
    exact htext
  · exact fun htext => ⟨record, entry, h, htext⟩

theorem HasEntry.get?_project {record : Record} {entry : Property}
    (h : properties.HasEntry key name record entry) (hproperties : properties.WellFormed) :
    Members.get? name (properties.project key) =
      projected? (record.isSecret || record.value.unwrap.2) entry := by
  obtain ⟨hrecord, entries, hcore, hentry⟩ := h
  rw [← Property.unwrap_fst] at hcore
  rw [project_eq_of_mapping hrecord hcore, (hproperties.sorted_entries hrecord hcore).get?_chosen,
    hentry, Option.bind_some]

theorem get?_project_iff (h : properties.WellFormed) {projected : Projected} :
    Members.get? name (properties.project key) = some projected ↔
      properties.HasText key name projected.text ∧
        (projected.secret = true ↔ properties.IsSecret key name) := by
  constructor
  · intro hget
    obtain ⟨record, entries, entry, hrecord, hcore, hentry, hprojected⟩ :=
      exists_of_get?_project h hget
    rw [Property.unwrap_fst] at hcore
    have hfound : properties.HasEntry key name record entry := ⟨hrecord, entries, hcore, hentry⟩
    obtain ⟨text, htext, rfl⟩ := Option.map_eq_some_iff.mp hprojected
    rw [← Property.scalarText?_core] at htext
    exact ⟨hfound.hasText_iff.mpr htext, hfound.isSecret_iff.symm⟩
  · rintro ⟨⟨record, entry, hfound, htext⟩, hsecret⟩
    rw [hfound.isSecret_iff, ← Bool.eq_iff_iff] at hsecret
    rw [hfound.get?_project h, projected?, ← Property.scalarText?_core, htext, ← hsecret]
    rfl

theorem HasText.exists_get?_project {text : String} (htext : properties.HasText key name text)
    (h : properties.WellFormed) :
    ∃ secret, Members.get? name (properties.project key) = some ⟨text, secret⟩ ∧
      (secret = true ↔ properties.IsSecret key name) := by
  obtain ⟨record, entry, hfound, -⟩ := id htext
  exact ⟨_, (get?_project_iff h).mpr ⟨htext, hfound.isSecret_iff.symm⟩, hfound.isSecret_iff.symm⟩

theorem mem_names_project_iff (h : properties.WellFormed) :
    name ∈ Members.names (properties.project key) ↔ properties.HasScalar key name := by
  rw [Members.mem_names_iff]
  constructor
  · rintro ⟨projected, hget⟩
    exact ⟨projected.text, ((get?_project_iff h).mp hget).1⟩
  · rintro ⟨text, htext⟩
    obtain ⟨secret, hget, -⟩ := htext.exists_get?_project h
    exact ⟨_, hget⟩

theorem publiclyEqual_iff (hleft : left.WellFormed) (hright : right.WellFormed) :
    PubliclyEqual left right ↔
      (∀ name, name ∈ Members.names left.environment ↔ name ∈ Members.names right.environment) ∧
      (∀ name projected other, Members.get? name left.environment = some projected →
        Members.get? name right.environment = some other →
        projected.secret = other.secret ∧
          (projected.secret = false → projected.text = other.text)) ∧
      (∀ name, name ∈ Members.names left.files ↔ name ∈ Members.names right.files) := by
  unfold environment files
  simp only [mem_names_project_iff hleft, mem_names_project_iff hright]
  constructor
  · refine fun h => ⟨h.names, fun name projected other hget hother => ?_, h.files⟩
    obtain ⟨htext, hsecret⟩ := (get?_project_iff hleft).mp hget
    obtain ⟨htext', hsecret'⟩ := (get?_project_iff hright).mp hother
    constructor
    · rw [Bool.eq_iff_iff, hsecret, hsecret']
      exact h.secrets name ⟨_, htext⟩
    · intro hpublic
      have hnot : ¬ left.IsSecret variablesKey name := by simp [← hsecret, hpublic]
      exact h.texts name _ _ hnot htext htext'
  · rintro ⟨hvariables, hvalues, hfiles⟩
    refine ⟨hvariables, fun name hname => ?_, fun name text other hnot htext htext' => ?_, hfiles⟩
    · obtain ⟨other, htext'⟩ := (hvariables name).mp hname
      obtain ⟨text, htext⟩ := hname
      obtain ⟨secret, hget, hsecret⟩ := htext.exists_get?_project hleft
      obtain ⟨secret', hget', hsecret'⟩ := htext'.exists_get?_project hright
      have heq : secret = secret' := (hvalues name _ _ hget hget').1
      rw [← hsecret, ← hsecret', heq]
    · obtain ⟨secret, hget, hsecret⟩ := htext.exists_get?_project hleft
      obtain ⟨secret', hget', -⟩ := htext'.exists_get?_project hright
      rw [← hsecret, Bool.not_eq_true] at hnot
      exact (hvalues name _ _ hget hget').2 hnot

theorem PubliclyEqual.assignments_eq (h : PubliclyEqual left right) (hleft : left.WellFormed)
    (hright : right.WellFormed) : left.assignments true = right.assignments true := by
  obtain ⟨hvariables, hvalues, hfiles⟩ := (publiclyEqual_iff hleft hright).mp h
  unfold assignments
  congr 1
  · apply (project_sorted hleft variablesKey).mapValues_eq (project_sorted hright variablesKey)
      hvariables
    intro name projected other hget hother
    obtain ⟨hsecret, htexts⟩ := hvalues name projected other hget hother
    unfold Projected.shown
    rw [← hsecret]
    cases hpublic : projected.secret with
    | true => rfl
    | false => exact htexts hpublic
  · apply (project_sorted hleft filesKey).mapValues_eq (project_sorted hright filesKey) hfiles
    exact fun _ _ _ _ _ => rfl

/-- Publicly equal environments are written as one text by the assignment formats, as long as
secrets are not to be shown and files are not to be written. -/
theorem write_assignments_noninterference (hleft : left.WellFormed) (hright : right.WellFormed)
    (h : PubliclyEqual left right) {format : Format}
    (hformat : format = .dotenv ∨ format = .shell) :
    ∃ text, ∀ d : Disk,
      NamedProperties.write (some left) ⟨format, false, true⟩ d = (.ok text, d) ∧
      NamedProperties.write (some right) ⟨format, false, true⟩ d = (.ok text, d) := by
  have hlines : format.isStructured = false := by
    cases hformat with
    | inl heq => rw [heq]; rfl
    | inr heq => rw [heq]; rfl
  refine ⟨_, fun d => ⟨write_pretend hlines left false d, ?_⟩⟩
  rw [write_pretend hlines, Bool.not_false, h.assignments_eq hleft hright]

/-- A flag on an envelope of the entry against one on an inner layer, a file whose content
differs, and an entry and a property that are not written. -/
theorem write_assignments_noninterference_layers :
    let environment (entries : List (String × Property)) : Property :=
      .envelope (.mapping (entries ++ [("USER", .string "root")])) [("trace", .null)]
    let secret : Members Json := [("secret", .bool true)]
    let left : NamedProperties := [
      ("environmentVariables", .ofValue (environment [("LIST", .sequence []),
        ("TOKEN", .envelope (.string "t0k3n") secret)])),
      ("files", .ofValue (.mapping [("CERT", .string "one")]))]
    let right : NamedProperties := [
      ("environmentVariables", .ofValue (environment
        [("TOKEN", .wrap (.envelope (.wrap (.bool false)) secret))])),
      ("files", .mk (.mapping [("CERT", .null)]) (some true) none none),
      ("owner", .ofValue (.string "ops"))]
    left.resolve ≠ right.resolve ∧ left.WellFormed ∧ right.WellFormed ∧
      PubliclyEqual left right ∧ ∃ text, ∀ d : Disk,
        NamedProperties.write (some left) ⟨.shell, false, true⟩ d = (.ok text, d) ∧
        NamedProperties.write (some right) ⟨.shell, false, true⟩ d = (.ok text, d) := by
  intro environment secret left right
  have hleft : left.WellFormed := ⟨by decide, by decide⟩
  have hright : right.WellFormed := ⟨by decide, by decide⟩
  have h : PubliclyEqual left right := by
    refine (publiclyEqual_iff hleft hright).mpr ⟨fun _ => Iff.rfl, ?_, fun _ => Iff.rfl⟩
    intro name projected other hget hother
    have hmem := Members.mem_of_get? hget
    rw [show left.environment = [("TOKEN", ⟨"t0k3n", true⟩), ("USER", ⟨"root", false⟩)] by decide]
      at hmem
    simp only [List.mem_cons, Prod.mk.injEq, List.not_mem_nil, or_false] at hmem
    rcases hmem with ⟨rfl, rfl⟩ | ⟨rfl, rfl⟩
    · cases hother
      exact ⟨rfl, nofun⟩
    · cases hother
      exact ⟨rfl, fun _ => rfl⟩
  refine ⟨?_, hleft, hright, h, write_assignments_noninterference hleft hright h (Or.inr rfl)⟩
  decide

end NamedProperties
end EnvClient

import EnvClient.Proofs.Definition

/-! The round trip of definitions: the text that a definition is written as holds it, and no
other. -/
namespace EnvClient

open Json (member?)
open Yaml (Node Document nodeOf memberNodes itemNodes textNode)
open Yaml.Node (json?_nodeOf jsonEntries?_memberNodes key?_textNode)

theorem text?_textNode (inline : Bool) (s : String) : (textNode inline s).text? = some s := rfl

namespace Values

variable {depth : Nat} {p : Partial}

theorem sectionOfYaml?_nodeOf {members : Members Json} (h : (Json.object members).Fits depth) :
    sectionOfYaml? depth (nodeOf (.object members)) = some (some members) := by
  obtain ⟨below, rfl⟩ := h.succ_of_object
  obtain ⟨hsorted, hvalues⟩ := Json.fits_object_succ.mp h
  change some <$> Node.jsonEntries? true below (memberNodes members) [] = _
  rw [@jsonEntries?_memberNodes true members below [] hsorted hvalues]
  rfl

theorem membersOfYaml?_section {s : Section} {found : Option (Members Json)}
    (hmet : p.section? s = none) (h : ∀ members ∈ found, (Json.object members).Fits depth)
    (rest : List (String × Json)) :
    membersOfYaml? depth p (memberNodes (member? s.name .object found ++ rest)) =
      membersOfYaml? depth (p.pass s found) (memberNodes rest) := by
  cases found with
  | none => rfl
  | some members =>
    simp [member?, memberNodes, membersOfYaml?, text?_textNode, hmet,
      sectionOfYaml?_nodeOf (h members rfl), Partial.pass]

theorem membersOfYaml?_others {members : Members Json}
    (hsorted : Members.Sorted (p.others ++ members))
    (hnames : ∀ name ∈ Members.names members, Section.ofName? name = none)
    (h : ∀ member ∈ members, member.2.Fits depth) :
    membersOfYaml? depth p (memberNodes members) = some { p with others := p.others ++ members } := by
  induction members generalizing p with
  | nil => rw [memberNodes, membersOfYaml?, List.append_nil]
  | cons member rest ih =>
    obtain ⟨name, value⟩ := member
    obtain ⟨hname, hnames⟩ := List.forall_mem_cons.mp hnames
    obtain ⟨hvalue, h⟩ := List.forall_mem_cons.mp h
    have happend : p.others ++ (name, value) :: rest = (p.others ++ [(name, value)]) ++ rest := by
      rw [List.append_assoc]
      rfl
    have hrest := @ih { p with others := p.others ++ [(name, value)] } (happend ▸ hsorted) hnames h
    simp only [memberNodes, membersOfYaml?, text?_textNode, Option.bind_eq_bind, Option.bind_some,
      hname, json?_nodeOf false value hvalue, hsorted.insert_append]
    rw [hrest, happend]

theorem ofYaml?_nodeOf {v : Values} (h : v.Fits depth) (hapart : v.Apart) :
    ofYaml? (depth + 1) (nodeOf v.toJson) = some (some v) := by
  obtain ⟨hsorted, hothers⟩ := Json.fits_object_succ.mp h.others
  have hnames := hapart.ofName?_eq_none
  have hread : membersOfYaml? depth .empty (memberNodes v.toMembers) =
      some { v.passed with others := v.others } := by
    have hconfig := @membersOfYaml?_section depth .empty .config v.config rfl (h.sections .config)
    have henvironment := @membersOfYaml?_section depth (Partial.empty.pass .config v.config)
      .environment v.environment (by simp) (h.sections .environment)
    have hfiles := @membersOfYaml?_section depth
      ((Partial.empty.pass .config v.config).pass .environment v.environment) .files v.files
      (by simp) (h.sections .files)
    rw [toMembers, List.append_assoc, List.append_assoc, hconfig, henvironment, hfiles]
    have hrest := @membersOfYaml?_others depth v.passed v.others (by simpa using hsorted) hnames
      hothers
    rwa [others_passed, List.nil_append] at hrest
  change (membersOfYaml? depth .empty (memberNodes v.toMembers)).map (some ·.toValues) = _
  rw [hread, Option.map_some, toValues_passed]

end Values

namespace Definition

variable {document : Document} {depth : Nat} {budget : Node.Budget}

theorem importsOfYaml?_nodeOf (imports : List String) :
    importsOfYaml? (nodeOf (.array (imports.map .string))) = some imports := by
  have hnames : (itemNodes (imports.map .string)).mapM Node.text? = some imports := by
    induction imports with
    | nil => rfl
    | cons name rest ih =>
      rw [List.map_cons, itemNodes, List.mapM_cons, ih]
      rfl
  exact hnames

theorem membersOfYaml?_imports (imports : List String) (rest : List (String × Json)) :
    membersOfYaml? document depth ⟨none, none⟩ (memberNodes
        ((if imports.isEmpty then [] else [("imports", .array (imports.map .string))]) ++ rest))
        budget =
      membersOfYaml? document depth ⟨if imports.isEmpty then none else some imports, none⟩
        (memberNodes rest) budget := by
  split
  · rfl
  simp [memberNodes, membersOfYaml?, Document.expand_textNode, Document.expand_nodeOf,
    text?_textNode, importsOfYaml?_nodeOf]

theorem membersOfYaml?_values {imports : Option (List String)} {found : Option Values}
    (h : ∀ values ∈ found, values.Fits depth ∧ values.Apart) :
    membersOfYaml? document (depth + 1) ⟨imports, none⟩
        (memberNodes (member? "values" Values.toJson found)) budget =
      some ⟨imports, found.map some⟩ := by
  cases found with
  | none => rfl
  | some values =>
    obtain ⟨hfits, hapart⟩ := h values rfl
    simp [member?, memberNodes, membersOfYaml?, Document.expand_textNode, Document.expand_nodeOf,
      text?_textNode, Values.ofYaml?_nodeOf hfits hapart]

theorem ofYaml?_toYaml_empty : ofYaml? empty.toYaml = some empty := by decide +kernel

def members (d : Definition) : List (String × Json) :=
  (if d.imports.isEmpty then [] else [("imports", .array (d.imports.map .string))]) ++
    member? "values" Values.toJson d.values

theorem toYaml_eq_print (d : Definition) : d.toYaml = Yaml.print (.object d.members) := rfl

theorem eq_empty_of_members {d : Definition} (h : d.members = []) : d = empty := by
  obtain ⟨imports, values⟩ := d
  obtain ⟨himports, hvalues⟩ := List.append_eq_nil_iff.mp h
  cases imports with
  | cons name rest => cases himports
  | nil =>
    cases values with
    | some values => cases hvalues
    | none => rfl

theorem ofYaml?_toYaml {d : Definition} (h : d.Readable) : ofYaml? d.toYaml = some d := by
  by_cases hempty : d.members = []
  · rw [eq_empty_of_members hempty]
    exact ofYaml?_toYaml_empty
  have hblank : Text.isBlank d.toYaml = false :=
    List.all_eq_false.mpr ⟨':', Yaml.colon_mem_print hempty, by decide⟩
  rw [ofYaml?, hblank, if_neg Bool.false_ne_true, toYaml_eq_print,
    Yaml.Document.ofText?_print]
  change (membersOfYaml? _ (Yaml.maxDepth - 2 + 1) ⟨none, none⟩ (memberNodes d.members) _).bind _ = _
  rw [members, membersOfYaml?_imports, membersOfYaml?_values h]
  obtain ⟨imports, values⟩ := d
  cases imports <;> cases values <;> rfl

theorem ofYaml?_toYaml_iff {d : Definition} (hsorted : d.Sorted)
    (hnesting : d.toJson.nesting ≤ Yaml.maxDepth) : ofYaml? d.toYaml = some d ↔ d.Apart := by
  have hfits := (@sorted_and_nesting_le_iff d (Yaml.maxDepth - 2)).mp ⟨hsorted, hnesting⟩
  constructor
  · intro h values hmem
    exact (readable_of_ofYaml? h values hmem).2
  · intro h
    exact ofYaml?_toYaml fun values hmem => ⟨hfits values hmem, h values hmem⟩

end Definition
end EnvClient

import EnvClient.Proofs.Json.Recovery
import EnvClient.Proofs.Preparation
import EnvClient.Proofs.Text.Order
import Mathlib.Data.List.Basic

/-! One environment prepared in different ways. Whether values are quoted, secrets are redacted
and files are written decides how a variable is shown, but not which variables there are, in what
order, or which texts are secret. -/
namespace EnvClient

/-- Temporary files are named alike, in whatever directory they are made. -/
def Disk.NamesFiles (d : Disk) : Prop :=
  ∀ n, ∃ directory rest, d.path n = directory ++ "esc-" ++ rest

namespace NamedProperties

def shownPaths (properties : NamedProperties) (pretend : Bool) (paths : List String) :
    List String :=
  if pretend then List.replicate properties.files.length Prepared.unknownPath else paths

def assigned (properties : NamedProperties) (options : PrepareOptions) (paths : List String) :
    List (String × String) :=
  Members.mapValues (Projected.shown options.redact) properties.environment ++
    (Members.names properties.files).zip (properties.shownPaths options.pretend paths)

end NamedProperties

theorem Disk.path_ne_unknownPath {d : Disk} (h : d.NamesFiles) (n : Nat) :
    d.path n ≠ Prepared.unknownPath := by
  obtain ⟨directory, rest, hpath⟩ := h n
  rw [hpath]
  intro heq
  have hmem : '-' ∈ (directory ++ "esc-" ++ rest).toList := by simp
  rw [heq] at hmem
  exact absurd hmem (by decide)

theorem Disk.writeTemporary_eq_ok {d d' : Disk} {content path : String}
    (h : d.writeTemporary content = (.ok path, d')) : path = d.path d.made ∧ d'.path = d.path := by
  have hpath := path_writeTemporary content d
  rw [h] at hpath
  refine ⟨?_, hpath⟩
  cases hfault : (d.fate d.made content).fault? with
  | none =>
    rw [writeTemporary_of_kept hfault] at h
    cases h
    rfl
  | some fault =>
    unfold writeTemporary at h
    cases hfate : d.fate d.made content with
    | kept =>
      rw [hfate] at hfault
      cases hfault
    | _ =>
      rw [hfate] at h
      cases h

namespace Prepared

theorem addFiles_eq_ok {p p' : Prepared} {entries : Members Projected} {d d' : Disk}
    (h : p.addFiles false entries d = (.ok p', d')) :
    ∃ paths, paths.length = entries.length ∧ (∀ path ∈ paths, ∃ n, path = d.path n) ∧
      p' = { p with
        assignments := p.assignments ++ (Members.names entries).zip paths
        files := p.files ++ paths
        secrets := p.secrets ++ Projected.secretTexts entries } := by
  induction entries generalizing p d with
  | nil =>
    cases h
    exact ⟨[], rfl, nofun, by simp [Members.names, Projected.secretTexts]⟩
  | cons entry rest ih =>
    rw [addFiles, if_neg Bool.false_ne_true] at h
    cases hwrite : d.writeTemporary entry.2.text with
    | mk result d₁ =>
      rw [hwrite] at h
      cases result with
      | error fault => cases h
      | ok path =>
        obtain ⟨rfl, hpaths⟩ := Disk.writeTemporary_eq_ok hwrite
        obtain ⟨paths, hlength, hmade, hp'⟩ := ih h
        rw [hpaths] at hmade
        refine ⟨d.path d.made :: paths, congrArg (· + 1) hlength, ?_, ?_⟩
        · exact List.forall_mem_cons.mpr ⟨⟨d.made, rfl⟩, hmade⟩
        · rw [hp']
          cases hsecret : entry.2.secret <;>
            simp [addPath, Members.names, Projected.secretTexts, hsecret]

def unquote? (quote : Bool) (s : String) : Option String :=
  if quote then (Json.decode Json.Reader.string s).toOption else some s

def valueAt? (p : Prepared) (i : Nat) (name : String) : Option String := do
  let entry ← p.environ[i]?
  let text ← entry.toList.dropPrefix? (name ++ "=").toList
  unquote? p.quote (String.ofList text)

end Prepared

theorem Json.decode_quote (s : String) : decode Reader.string (quote s) = .ok s :=
  decode_compact (j := string s) (Reader.recovers_string maxDepth s) (Nat.zero_le _) fun n hn => by
    cases nodeOf_string.mp hn

namespace Prepared

theorem unquote?_quote (quote : Bool) (s : String) :
    unquote? quote (if quote then Json.quote s else s) = some s := by
  cases quote with
  | false => rfl
  | true =>
    rw [unquote?, if_pos rfl, if_pos rfl, Json.decode_quote]
    rfl

theorem valueAt?_of_getElem? {p : Prepared} {i : Nat} {name value : String}
    (h : p.assignments[i]? = some (name, value)) : p.valueAt? i name = some value := by
  have hpair : pair p.quote (name, value) =
      name ++ "=" ++ (if p.quote then Json.quote value else value) := rfl
  rw [valueAt?, environ, List.getElem?_map, h, Option.map_some, Option.bind_eq_bind,
    Option.bind_some, hpair, String.toList_append, List.dropPrefix?_append_of_beq _ BEq.rfl]
  change unquote? p.quote (String.ofList (String.toList _)) = _
  rw [String.ofList_toList, unquote?_quote]

end Prepared

namespace NamedProperties

theorem assigned_pretend (properties : NamedProperties) (quote redact : Bool)
    (paths : List String) :
    properties.assigned ⟨quote, redact, true⟩ paths = properties.assignments redact := by
  unfold assigned assignments shownPaths Members.names Members.mapValues
  rw [if_pos rfl, ← List.map_const', List.zip_map']

theorem prepare_eq_ok {properties : NamedProperties} {options : PrepareOptions} {d d' : Disk}
    {p : Prepared} (h : properties.prepare options d = (.ok p, d')) :
    p = ⟨options.quote, properties.assigned options p.files, p.files,
        Projected.secretTexts properties.environment ++ Projected.secretTexts properties.files⟩ ∧
      p.files.length = (if options.pretend then 0 else properties.files.length) ∧
      ∀ path ∈ p.files, ∃ n, path = d.path n := by
  obtain ⟨quote, redact, pretend⟩ := options
  cases pretend with
  | true =>
    rw [prepare_pretend] at h
    cases h
    exact ⟨by rw [assigned_pretend], rfl, nofun⟩
  | false =>
    rw [prepare, Prepared.foldl_addVariable] at h
    obtain ⟨paths, hlength, hmade, rfl⟩ := Prepared.addFiles_eq_ok h
    exact ⟨rfl, hlength, hmade⟩

theorem names_ascend {properties : NamedProperties} (h : properties.WellFormed) (key : String) :
    ((Members.names (properties.project key)).map Text.Utf8.encode).Pairwise (· < ·) := by
  unfold Members.names
  rw [List.map_map, List.pairwise_map]
  exact (project_sorted h key).imp fun hlt => Text.Utf8.encode_lt hlt

/-- How a file is shown by the assignment at a position: without its path exactly if files are
not written. -/
def ShowsFile (pretend : Bool) (p : Prepared) (position file : Nat) (name : String) : Prop :=
  ∃ text, p.valueAt? position name = some text ∧
    (text = Prepared.unknownPath ↔ pretend = true) ∧ (pretend = false → p.files[file]? = some text)

/-- Two preparations of an environment that show the same variables, first those of its own and
then one a file, and hold the same texts for secret. -/
structure SameEnvironment (properties : NamedProperties) (options options' : PrepareOptions)
    (p p' : Prepared) : Prop where
  secrets : p.secrets = Projected.secretTexts properties.environment ++
    Projected.secretTexts properties.files ∧ p'.secrets = p.secrets
  length : p.environ.length = properties.environment.length + properties.files.length ∧
    p'.environ.length = p.environ.length
  /-- What differs is secret and redacted by one of the two alone. -/
  values : ∀ (i : Nat) (name : String) (projected : Projected),
    properties.environment[i]? = some (name, projected) →
    ∃ text text', p.valueAt? i name = some text ∧ p'.valueAt? i name = some text' ∧
      text = projected.shown options.redact ∧ text' = projected.shown options'.redact ∧
      (text ≠ text' → projected.secret = true ∧
        (options.redact = true ∧ options'.redact = false ∧
          text = Property.redacted ∧ text' = projected.text ∨
        options.redact = false ∧ options'.redact = true ∧
          text = projected.text ∧ text' = Property.redacted))
  files : ∀ (i : Nat) (name : String) (projected : Projected),
    properties.files[i]? = some (name, projected) →
    ShowsFile options.pretend p (properties.environment.length + i) i name ∧
      ShowsFile options'.pretend p' (properties.environment.length + i) i name

variable {properties : NamedProperties} {options : PrepareOptions} {d d' : Disk} {p : Prepared}

theorem length_shownPaths (h : properties.prepare options d = (.ok p, d')) :
    (properties.shownPaths options.pretend p.files).length = properties.files.length := by
  obtain ⟨-, hlength, -⟩ := prepare_eq_ok h
  unfold shownPaths
  cases hpretend : options.pretend with
  | true => simp
  | false => simpa [hpretend] using hlength

theorem length_environ_of_prepare (h : properties.prepare options d = (.ok p, d')) :
    p.environ.length = properties.environment.length + properties.files.length := by
  rw [Prepared.environ, List.length_map, (prepare_eq_ok h).1, assigned]
  simp [Members.mapValues, Members.names, length_shownPaths h]

theorem valueAt?_variable (h : properties.prepare options d = (.ok p, d')) {i : Nat}
    {name : String} {projected : Projected}
    (hi : properties.environment[i]? = some (name, projected)) :
    p.valueAt? i name = some (projected.shown options.redact) := by
  obtain ⟨hp, -⟩ := prepare_eq_ok h
  apply Prepared.valueAt?_of_getElem?
  rw [hp, assigned, List.getElem?_append_left]
  · rw [Members.mapValues, List.getElem?_map, hi]
    rfl
  · rw [Members.mapValues, List.length_map]
    exact (List.getElem?_eq_some_iff.mp hi).1

theorem valueAt?_file (h : properties.prepare options d = (.ok p, d')) {i : Nat}
    {name text : String} {projected : Projected}
    (hi : properties.files[i]? = some (name, projected))
    (htext : (properties.shownPaths options.pretend p.files)[i]? = some text) :
    p.valueAt? (properties.environment.length + i) name = some text := by
  obtain ⟨hp, -⟩ := prepare_eq_ok h
  have hvariables : properties.environment.length =
      (Members.mapValues (Projected.shown options.redact) properties.environment).length := by
    rw [Members.mapValues, List.length_map]
  have hname : (Members.names properties.files)[i]? = some name := by
    rw [Members.names, List.getElem?_map, hi]
    rfl
  apply Prepared.valueAt?_of_getElem?
  rw [hp, assigned, hvariables, List.getElem?_append_right (Nat.le_add_right _ _),
    Nat.add_sub_cancel_left, List.getElem?_zip_eq_some]
  exact ⟨hname, htext⟩

theorem showsFile_of_prepare (hd : d.NamesFiles) (h : properties.prepare options d = (.ok p, d'))
    {i : Nat} {name : String} {projected : Projected}
    (hi : properties.files[i]? = some (name, projected)) :
    ShowsFile options.pretend p (properties.environment.length + i) i name := by
  obtain ⟨-, hlength, hpaths⟩ := prepare_eq_ok h
  have hlt : i < properties.files.length := (List.getElem?_eq_some_iff.mp hi).1
  have hvalue (text : String) : (properties.shownPaths options.pretend p.files)[i]? = some text →
      p.valueAt? (properties.environment.length + i) name = some text := valueAt?_file h hi
  unfold shownPaths at hvalue
  cases hpretend : options.pretend with
  | true =>
    rw [hpretend, if_pos rfl] at hvalue
    exact ⟨_, hvalue _ (List.getElem?_replicate_of_lt hlt), iff_of_true rfl rfl, nofun⟩
  | false =>
    rw [hpretend, if_neg Bool.false_ne_true] at hvalue hlength
    have hget := List.getElem?_eq_getElem (hlength ▸ hlt)
    obtain ⟨n, hn⟩ := hpaths _ (List.mem_of_getElem? hget)
    refine ⟨_, hvalue _ hget, iff_of_false ?_ nofun, fun _ => hget⟩
    rw [hn]
    exact Disk.path_ne_unknownPath hd n

theorem shown_ne_shown {projected : Projected} {redact redact' : Bool}
    (h : projected.shown redact ≠ projected.shown redact') : projected.secret = true ∧
      (redact = true ∧ redact' = false ∧ projected.shown redact = Property.redacted ∧
          projected.shown redact' = projected.text ∨
        redact = false ∧ redact' = true ∧ projected.shown redact = projected.text ∧
          projected.shown redact' = Property.redacted) := by
  unfold Projected.shown at h ⊢
  cases hsecret : projected.secret with
  | false => simp [hsecret] at h
  | true => cases redact <;> cases redact' <;> simp [hsecret] at h ⊢

/-- With files left unwritten an environment is always prepared, and whatever is prepared of it,
under whatever options, is the same environment: its variables in order of their bytes, and then
its files. -/
theorem prepare_same_environment (hproperties : properties.WellFormed) :
    (∀ options d, options.pretend = true → ∃ p, properties.prepare options d = (.ok p, d)) ∧
    ((Members.names properties.environment).map Text.Utf8.encode).Pairwise (· < ·) ∧
    ((Members.names properties.files).map Text.Utf8.encode).Pairwise (· < ·) ∧
    ∀ {options options' : PrepareOptions} {d d' e e' : Disk} {p p' : Prepared},
      d.NamesFiles → d'.NamesFiles → properties.prepare options d = (.ok p, e) →
      properties.prepare options' d' = (.ok p', e') →
      properties.SameEnvironment options options' p p' := by
  refine ⟨fun options d hpretend => ?_, names_ascend hproperties variablesKey,
    names_ascend hproperties filesKey, ?_⟩
  · obtain ⟨quote, redact, pretend⟩ := options
    cases hpretend
    exact ⟨_, prepare_pretend properties quote redact d⟩
  intro options options' d d' e e' p p' hd hd' h h'
  have hsecrets := congrArg Prepared.secrets (prepare_eq_ok h).1
  refine ⟨⟨hsecrets, (congrArg Prepared.secrets (prepare_eq_ok h').1).trans hsecrets.symm⟩,
    ⟨length_environ_of_prepare h,
      (length_environ_of_prepare h').trans (length_environ_of_prepare h).symm⟩, ?_, ?_⟩
  · intro i name projected hi
    exact ⟨_, _, valueAt?_variable h hi, valueAt?_variable h' hi, rfl, rfl, shown_ne_shown⟩
  · exact fun i name projected hi => ⟨showsFile_of_prepare hd h hi, showsFile_of_prepare hd' h' hi⟩

theorem prepare_same_environment_written :
    let properties : NamedProperties := [
      ("environmentVariables", .ofValue (.mapping [
        ("TOKEN", .envelope (.string "t=\"1\"\n") [("secret", .bool true)]),
        ("USER", .string "root")])),
      ("files", .mk (.mapping [("CERT", .string "c")]) (some true) none none)]
    let d : Disk :=
      ⟨[], fun n => "/tmp/esc-" ++ String.ofList (List.replicate n 'x'), fun _ _ => .kept, 0⟩
    properties.WellFormed ∧ d.NamesFiles ∧
      ∃ p p' e, properties.prepare ⟨false, true, true⟩ d = (.ok p, d) ∧
        properties.prepare ⟨true, false, false⟩ d = (.ok p', e) ∧
        p.environ = ["TOKEN=[secret]", "USER=root", "CERT=[unknown]"] ∧
        p'.environ = ["TOKEN=\"t=\\\"1\\\"\\n\"", "USER=\"root\"", "CERT=\"/tmp/esc-\""] ∧
        properties.SameEnvironment ⟨false, true, true⟩ ⟨true, false, false⟩ p p' := by
  intro properties d
  have hproperties : properties.WellFormed := ⟨by decide, by decide⟩
  have hd : d.NamesFiles := fun n => ⟨"/tmp/", String.ofList (List.replicate n 'x'), rfl⟩
  exact ⟨hproperties, hd, _, _, _, rfl, rfl, by decide, by decide,
    (prepare_same_environment hproperties).2.2.2 hd hd rfl rfl⟩

end NamedProperties
end EnvClient

import EnvClient.Proofs.Property.Unwrap
import EnvClient.Proofs.Redaction

/-! Redaction place by place. A path leads to one value of a resolved tree, and passes the
envelopes around the nodes on its way; the first of these that is secret cuts off the redacted
tree there. Where none is, the redacted tree is what the resolved one is. -/
namespace EnvClient

inductive Step where
  | key (name : String)
  | index (i : Nat)
deriving DecidableEq, Repr

namespace Json

def child? : Step → Json → Option Json
  | .key name, object members => Members.get? name members
  | .index i, array items => items[i]?
  | _, _ => none

def at? : List Step → Json → Option Json
  | [], j => some j
  | step :: path, j => (j.child? step).bind (at? path)

/-- A scalar, or a container with nothing in it. -/
def IsLeaf : Json → Prop
  | array items => items = []
  | object members => members = []
  | _ => True

/-- Arrays of one length, objects with the same names, or one and the same scalar. -/
def Matches : Json → Json → Prop
  | array items, array others => items.length = others.length
  | object members, object others => Members.names members = Members.names others
  | j, k => j = k

theorem at?_append (front back : List Step) (j : Json) :
    j.at? (front ++ back) = (j.at? front).bind (at? back) := by
  induction front generalizing j with
  | nil => rfl
  | cons step front ih =>
    rw [List.cons_append, at?, at?]
    cases j.child? step with
    | none => rfl
    | some next => exact ih next

theorem at?_string_of_ne_nil {path : List Step} (h : path ≠ []) (s : String) :
    (string s).at? path = none := by
  cases path with
  | nil => exact absurd rfl h
  | cons step path => cases step <;> rfl

theorem Matches.eq_of_isLeaf {j k : Json} (h : Matches j k) (hleaf : j.IsLeaf) : k = j := by
  cases j with
  | array items =>
    cases k with
    | array others =>
      have hempty : items = [] := hleaf
      have hlength : items.length = others.length := h
      rw [hempty] at hlength ⊢
      rw [List.eq_nil_of_length_eq_zero hlength.symm]
    | _ => exact Eq.symm h
  | object members =>
    cases k with
    | object others =>
      have hempty : members = [] := hleaf
      have hnames : Members.names members = Members.names others := h
      rw [hempty] at hnames ⊢
      rw [List.map_eq_nil_iff.mp hnames.symm]
    | _ => exact Eq.symm h
  | _ => cases k <;> exact Eq.symm h

end Json

namespace Property

def child? (step : Step) (p : Property) : Option Property :=
  match step, p.core with
  | .key name, mapping entries => Members.get? name entries
  | .index i, sequence items => items[i]?
  | _, _ => none

def at? : List Step → Property → Option Property
  | [], p => some p
  | step :: path, p => (p.child? step).bind (at? path)

/-- A secret envelope stands around a node on the way: around the first, the last or one between. -/
def SecretOn (path : List Step) (p : Property) : Prop :=
  ∃ front node metadata, front <+: path ∧ p.at? front = some node ∧
    metadata ∈ node.layers ∧ MarksSecret metadata

/-- The path ends where the first secret envelope on its way is met. -/
structure HidesAt (path : List Step) (p : Property) : Prop where
  secret : p.SecretOn path
  first : ∀ front, front <+: path → front ≠ path → ¬ p.SecretOn front

theorem resolve_eq_core (p : Property) : p.resolve = p.core.resolve := by
  rw [resolve_eq_of_unwrap, unwrap_fst]

theorem unwrap_snd_iff {p : Property} : p.unwrap.2 = true ↔ p.SecretOn [] := by
  rw [unwrap_snd, List.any_eq_true]
  constructor
  · rintro ⟨metadata, hmem, hsecret⟩
    exact ⟨[], p, metadata, List.prefix_rfl, rfl, hmem, flagged_secretKey_iff.mp hsecret⟩
  · rintro ⟨front, node, metadata, hfront, hnode, hmem, hsecret⟩
    cases List.prefix_nil.mp hfront
    cases hnode
    exact ⟨metadata, hmem, flagged_secretKey_iff.mpr hsecret⟩

theorem redact_of_secretOn_nil {p : Property} (h : p.SecretOn []) :
    p.redact = .string redacted := by
  rw [redact_eq_of_unwrap, unwrap_snd_iff.mpr h]
  rfl

theorem redact_of_not_secretOn_nil {p : Property} (h : ¬ p.SecretOn []) :
    p.redact = p.core.redact := by
  rw [redact_eq_of_unwrap, unwrap_fst, if_neg (mt unwrap_snd_iff.mp h)]

theorem child?_plain_core (shouldRedact : Bool) (step : Step) (p : Property) :
    (p.core.plain shouldRedact).child? step = (p.child? step).map (plain shouldRedact) := by
  have hcore := isEnvelope_core p
  unfold child?
  generalize p.core = core at hcore ⊢
  cases core with
  | envelope payload metadata => cases hcore
  | sequence items =>
    rw [plain_sequence]
    cases step with
    | key name => rfl
    | index i => exact List.getElem?_map
  | mapping entries =>
    rw [plain_mapping]
    cases step with
    | key name => exact Members.get?_mapValues _ name entries
    | index i => rfl
  | _ => cases step <;> rfl

theorem child?_resolve (step : Step) (p : Property) :
    p.resolve.child? step = (p.child? step).map resolve := by
  rw [resolve_eq_core]
  exact child?_plain_core false step p

theorem child?_redact {p : Property} (h : ¬ p.SecretOn []) (step : Step) :
    p.redact.child? step = (p.child? step).map redact := by
  rw [redact_of_not_secretOn_nil h]
  exact child?_plain_core true step p

theorem at?_resolve (path : List Step) (p : Property) :
    p.resolve.at? path = (p.at? path).map resolve := by
  induction path generalizing p with
  | nil => rfl
  | cons step path ih =>
    rw [Json.at?, at?, child?_resolve]
    cases p.child? step with
    | none => rfl
    | some next => exact ih next

theorem SecretOn.mono {front path : List Step} {p : Property} (h : p.SecretOn front)
    (hbefore : front <+: path) : p.SecretOn path := by
  obtain ⟨first, node, metadata, hfirst, hnode⟩ := h
  exact ⟨first, node, metadata, hfirst.trans hbefore, hnode⟩

theorem secretOn_cons {step : Step} {path : List Step} {p : Property} :
    p.SecretOn (step :: path) ↔
      p.SecretOn [] ∨ ∃ next ∈ p.child? step, next.SecretOn path := by
  constructor
  · rintro ⟨front, node, metadata, hbefore, hnode, hsecret⟩
    cases front with
    | nil => exact .inl ⟨[], node, metadata, List.prefix_rfl, hnode, hsecret⟩
    | cons first front =>
      obtain ⟨rfl, hfront⟩ := List.cons_prefix_cons.mp hbefore
      obtain ⟨next, hnext, hnode⟩ := Option.bind_eq_some_iff.mp hnode
      exact .inr ⟨next, hnext, front, node, metadata, hfront, hnode, hsecret⟩
  · rintro (hroot | ⟨next, hnext, front, node, metadata, hbefore, hnode, hsecret⟩)
    · exact hroot.mono List.nil_prefix
    · refine ⟨step :: front, node, metadata, List.cons_prefix_cons.mpr ⟨rfl, hbefore⟩, ?_, hsecret⟩
      rw [at?, Option.mem_def.mp hnext]
      exact hnode

instance decidableSecretOn : (path : List Step) → DecidablePred (SecretOn path)
  | [] => fun _ => decidable_of_iff _ unwrap_snd_iff
  | step :: path => fun p =>
    have := decidableSecretOn path
    decidable_of_iff (p.unwrap.2 = true ∨ ∃ next ∈ p.child? step, next.SecretOn path)
      (by rw [secretOn_cons, unwrap_snd_iff])

theorem not_secretOn_of_at? {path : List Step} {p node : Property} (h : ¬ p.SecretOn path)
    (hnode : p.at? path = some node) : ¬ node.SecretOn [] := by
  rintro ⟨front, last, metadata, hfront, hlast, hsecret⟩
  cases List.prefix_nil.mp hfront
  cases hlast
  exact h ⟨path, node, metadata, List.prefix_rfl, hnode, hsecret⟩

/-- Of the secret envelopes on the way there is a first one. -/
theorem SecretOn.exists_hidesAt {path : List Step} {p : Property} (h : p.SecretOn path) :
    ∃ front, front <+: path ∧ p.HidesAt front := by
  by_cases hshorter : ∃ front, front <+: path ∧ front ≠ path ∧ p.SecretOn front
  · obtain ⟨front, hbefore, hne, hfront⟩ := hshorter
    have hlt : front.length < path.length :=
      Nat.lt_of_le_of_ne hbefore.length_le fun heq => hne (hbefore.eq_of_length heq)
    obtain ⟨first, hfirst, hhides⟩ := hfront.exists_hidesAt
    exact ⟨first, hfirst.trans hbefore, hhides⟩
  · refine ⟨path, List.prefix_rfl, h, fun front hbefore hne hsecret => ?_⟩
    exact hshorter ⟨front, hbefore, hne, hsecret⟩
termination_by path.length

/-- Up to the first secret envelope, redacted and resolved trees have the same nodes. -/
theorem at?_redact {path : List Step} {p : Property}
    (h : ∀ front, front <+: path → front ≠ path → ¬ p.SecretOn front) :
    p.redact.at? path = (p.at? path).map redact := by
  induction path generalizing p with
  | nil => rfl
  | cons step path ih =>
    have hroot : ¬ p.SecretOn [] := h [] List.nil_prefix (List.cons_ne_nil _ _).symm
    rw [Json.at?, at?, child?_redact hroot]
    cases hnext : p.child? step with
    | none => rfl
    | some next =>
      refine ih fun front hbefore hne hsecret => ?_
      exact h (step :: front) (List.cons_prefix_cons.mpr ⟨rfl, hbefore⟩)
        (fun heq => hne (List.cons.inj heq).2) (secretOn_cons.mpr (.inr ⟨next, hnext, hsecret⟩))

theorem matches_redact {p : Property} (h : ¬ p.SecretOn []) : p.resolve.Matches p.redact := by
  have hcore := isEnvelope_core p
  rw [resolve_eq_core, redact_of_not_secretOn_nil h]
  unfold resolve redact
  generalize p.core = core at hcore ⊢
  cases core with
  | envelope payload metadata => cases hcore
  | sequence items =>
    rw [plain_sequence, plain_sequence]
    exact (List.length_map _).trans (List.length_map _).symm
  | mapping entries =>
    rw [plain_mapping, plain_mapping]
    exact (Members.names_mapValues _ entries).trans (Members.names_mapValues _ entries).symm
  | _ => rfl

theorem at?_redact_matches {path : List Step} {p : Property} {value : Json}
    (h : ¬ p.SecretOn path) (hvalue : p.resolve.at? path = some value) :
    ∃ shown, p.redact.at? path = some shown ∧ value.Matches shown := by
  rw [at?_resolve] at hvalue
  obtain ⟨node, hnode, rfl⟩ := Option.map_eq_some_iff.mp hvalue
  refine ⟨node.redact, ?_, matches_redact (not_secretOn_of_at? h hnode)⟩
  rw [at?_redact fun front hbefore _ hsecret => h (hsecret.mono hbefore), hnode]
  rfl

theorem HidesAt.exists_node {path : List Step} {p : Property} (h : p.HidesAt path) :
    ∃ node, p.at? path = some node ∧ node.SecretOn [] := by
  obtain ⟨front, node, metadata, hbefore, hnode, hsecret⟩ := h.secret
  by_cases heq : front = path
  · subst heq
    exact ⟨node, hnode, [], node, metadata, List.prefix_rfl, rfl, hsecret⟩
  · exact absurd ⟨front, node, metadata, List.prefix_rfl, hnode, hsecret⟩
      (h.first front hbefore heq)

theorem HidesAt.at?_redact {path : List Step} {p : Property} (h : p.HidesAt path) :
    p.redact.at? path = some (.string redacted) := by
  obtain ⟨node, hnode, hsecret⟩ := h.exists_node
  rw [Property.at?_redact h.first, hnode, Option.map_some, redact_of_secretOn_nil hsecret]

theorem HidesAt.at?_redact_below {path below : List Step} {p : Property} (h : p.HidesAt path)
    (hbelow : below ≠ []) : p.redact.at? (path ++ below) = none := by
  rw [Json.at?_append, h.at?_redact]
  exact Json.at?_string_of_ne_nil hbelow redacted

theorem hidesAt_or_not_secretOn {path : List Step} {p : Property} {shown : Json}
    (h : p.redact.at? path = some shown) : p.HidesAt path ∨ ¬ p.SecretOn path := by
  by_cases hsecret : p.SecretOn path
  · obtain ⟨front, ⟨below, hpath⟩, hhides⟩ := hsecret.exists_hidesAt
    cases below with
    | nil =>
      rw [List.append_nil] at hpath
      exact .inl (hpath ▸ hhides)
    | cons step below =>
      rw [← hpath, hhides.at?_redact_below (List.cons_ne_nil step below)] at h
      cases h
  · exact .inr hsecret

/-- Where no envelope on the way is secret, the redacted tree holds what the resolved one does: the
same leaf, a list of the same length, or a mapping with the same names. Otherwise the marker
stands where the first secret envelope is met, with nothing below it. Redacting adds no places, and
puts the marker only there. -/
theorem redact_exact (p : Property) :
    (∀ path value, p.resolve.at? path = some value → ¬ p.SecretOn path →
      ∃ shown, p.redact.at? path = some shown ∧ value.Matches shown ∧
        (value.IsLeaf → shown = value)) ∧
    (∀ path, p.SecretOn path → ∃ front, front <+: path ∧ p.HidesAt front ∧
      p.redact.at? front = some (.string redacted) ∧
      ∀ below, below ≠ [] → p.redact.at? (front ++ below) = none) ∧
    (∀ path shown, p.redact.at? path = some shown →
      (∃ value, p.resolve.at? path = some value) ∧
      (p.HidesAt path ∧ shown = .string redacted ∨ ¬ p.SecretOn path)) := by
  refine ⟨fun path value hvalue hshown => ?_, fun path hsecret => ?_, fun path shown hplace => ?_⟩
  · obtain ⟨shown, hplace, hmatches⟩ := at?_redact_matches hshown hvalue
    exact ⟨shown, hplace, hmatches, hmatches.eq_of_isLeaf⟩
  · obtain ⟨front, hbefore, hhides⟩ := hsecret.exists_hidesAt
    exact ⟨front, hbefore, hhides, hhides.at?_redact, fun below => hhides.at?_redact_below⟩
  · have hcases := hidesAt_or_not_secretOn hplace
    have hfirst : ∀ front, front <+: path → front ≠ path → ¬ p.SecretOn front :=
      hcases.elim HidesAt.first fun hshown front hbefore _ hsecret => hshown (hsecret.mono hbefore)
    have hnode := hplace
    rw [Property.at?_redact hfirst] at hnode
    obtain ⟨node, hnode, -⟩ := Option.map_eq_some_iff.mp hnode
    refine ⟨⟨node.resolve, ?_⟩, hcases.imp_left fun hhides => ⟨hhides, ?_⟩⟩
    · rw [at?_resolve, hnode]
      rfl
    · exact Option.some.inj (hplace.symm.trans hhides.at?_redact)

/-- An inner envelope that is secret, a flag that is no boolean, and an empty mapping. -/
theorem redact_exact_stacked :
    let p : Property := wrap (mapping [("hosts", sequence [string "a", wrap (mapping [])]),
      ("note", envelope (string "n") [("secret", .string "yes")]),
      ("token", wrap (wrapSecret (sequence [string "t0k3n"])))])
    let host : List Step := [.key "hosts", .index 1]
    let token : List Step := [.key "token", .index 0]
    (p.resolve.at? host = some (.object []) ∧ p.redact.at? host = some (.object [])) ∧
      (p.resolve.at? token = some (.string "t0k3n") ∧ ∃ front, front <+: token ∧
        p.redact.at? front = some (.string redacted)) ∧
      p.redact.at? [.key "note"] = some (.string "n") ∧ ¬ p.SecretOn [.key "note"] := by
  intro p host token
  obtain ⟨hkept, hhidden, hplaces⟩ := redact_exact p
  refine ⟨⟨rfl, ?_⟩, ⟨rfl, ?_⟩, rfl, ?_⟩
  · obtain ⟨shown, hplace, -, hleaf⟩ := hkept host (.object []) rfl (by decide)
    rw [hplace, hleaf rfl]
  · obtain ⟨front, hbefore, -, hmarker, -⟩ := hhidden token (by decide)
    exact ⟨front, hbefore, hmarker⟩
  · have hnote := (hplaces [.key "note"] (.string "n") rfl).2
    exact hnote.resolve_left fun hhides => by simp [redacted] at hhides

end Property
end EnvClient

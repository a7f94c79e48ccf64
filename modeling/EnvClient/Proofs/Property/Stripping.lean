import EnvClient.Proofs.Property.Unwrap

/-! Stripping envelopes as a loop that keeps what is left of a tree and whether a layer so far was
secret. Each turn takes one layer off; the loop stops at what `unwrap` gives, and the layers that
it took off are those of the tree. -/
namespace EnvClient.Property

def under (layers : List (Members Json)) (core : Property) : Property :=
  layers.foldr (fun metadata payload => envelope payload metadata) core

theorem under_cons (metadata : Members Json) (layers : List (Members Json)) (core : Property) :
    core.under (metadata :: layers) = envelope (core.under layers) metadata := rfl

theorem under_layers (p : Property) : p.core.under p.layers = p := by
  induction p with
  | envelope payload metadata ih => exact congrArg (envelope · metadata) ih
  | _ => rfl

theorem layers_of_not_isEnvelope {p : Property} (h : p.isEnvelope = false) : p.layers = [] := by
  cases p with
  | envelope payload metadata => cases h
  | _ => rfl

theorem core_of_not_isEnvelope {p : Property} (h : p.isEnvelope = false) : p.core = p := by
  cases p with
  | envelope payload metadata => cases h
  | _ => rfl

theorem layers_under {core : Property} (h : core.isEnvelope = false)
    (layers : List (Members Json)) : (core.under layers).layers = layers := by
  induction layers with
  | nil => exact layers_of_not_isEnvelope h
  | cons metadata layers ih => rw [under_cons, Property.layers, ih]

theorem core_under {core : Property} (h : core.isEnvelope = false)
    (layers : List (Members Json)) : (core.under layers).core = core := by
  induction layers with
  | nil => exact core_of_not_isEnvelope h
  | cons metadata layers ih => rw [under_cons, Property.core, ih]

/-- Where the loop stands: what is left of the tree, and whether a layer so far was secret. -/
structure Stripping where
  rest : Property
  secret : Bool

namespace Stripping

def start (p : Property) : Stripping := ⟨p, false⟩

def turn? : Stripping → Option (Members Json × Stripping)
  | ⟨envelope payload metadata, secret⟩ =>
    some (metadata, ⟨payload, secret || flagged secretKey metadata⟩)
  | _ => none

inductive Run : Stripping → List (Members Json) → Stripping → Prop where
  | stop {s : Stripping} (h : s.turn? = none) : Run s [] s
  | turn {s s' t : Stripping} {layer : Members Json} {layers : List (Members Json)}
      (h : s.turn? = some (layer, s')) (rest : Run s' layers t) : Run s (layer :: layers) t

theorem turn?_eq_none_iff {s : Stripping} : s.turn? = none ↔ s.rest.isEnvelope = false := by
  obtain ⟨rest, secret⟩ := s
  cases rest with
  | envelope payload metadata => exact iff_of_false nofun nofun
  | _ => exact iff_of_true rfl rfl

theorem of_turn? {s s' : Stripping} {layer : Members Json} (h : s.turn? = some (layer, s')) :
    s.rest = envelope s'.rest layer ∧ s'.secret = (s.secret || flagged secretKey layer) := by
  obtain ⟨rest, secret⟩ := s
  cases rest with
  | envelope payload metadata =>
    cases h
    exact ⟨rfl, rfl⟩
  | _ => cases h

theorem sizeOf_lt_of_turn? {s s' : Stripping} {layer : Members Json}
    (h : s.turn? = some (layer, s')) : sizeOf s'.rest < sizeOf s.rest := by
  rw [(of_turn? h).1, envelope.sizeOf_spec]
  omega

/-- Where a run stops it has left the core, below the layers that it took off. -/
theorem Run.under_eq {s t : Stripping} {layers : List (Members Json)} (h : Run s layers t) :
    t.rest.isEnvelope = false ∧ s.rest = t.rest.under layers ∧
      t.secret = (s.secret || layers.any (flagged secretKey)) := by
  induction h with
  | stop h => exact ⟨turn?_eq_none_iff.mp h, rfl, (Bool.or_false _).symm⟩
  | turn h _ ih =>
    obtain ⟨hrest, hsecret⟩ := of_turn? h
    obtain ⟨hcore, hunder, hany⟩ := ih
    refine ⟨hcore, ?_, ?_⟩
    · rw [hrest, hunder, under_cons]
    · rw [hany, hsecret, Bool.or_assoc, List.any_cons]

theorem exists_run (s : Stripping) : ∃ layers t, Run s layers t := by
  obtain ⟨rest, secret⟩ := s
  induction rest generalizing secret with
  | envelope payload metadata ih =>
    obtain ⟨layers, t, hrun⟩ := ih (secret || flagged secretKey metadata)
    exact ⟨metadata :: layers, t, .turn rfl hrun⟩
  | _ => exact ⟨[], _, .stop rfl⟩

/-- The loop takes off the layers of a tree and stops at what the tree unwraps to. -/
theorem run_start_iff {p : Property} {layers : List (Members Json)} {t : Stripping} :
    Run (start p) layers t ↔ layers = p.layers ∧ (t.rest, t.secret) = p.unwrap := by
  have heq : ∀ {layers t}, Run (start p) layers t →
      layers = p.layers ∧ (t.rest, t.secret) = p.unwrap := by
    intro layers t h
    obtain ⟨hcore, hunder, hsecret⟩ := h.under_eq
    have hp : p = t.rest.under layers := hunder
    have hlayers : p.layers = layers := by rw [hp, layers_under hcore]
    have hrest : p.core = t.rest := by rw [hp, core_under hcore]
    refine ⟨hlayers.symm, ?_⟩
    rw [unwrap_eq, hlayers, hrest, hsecret]
    rfl
  refine ⟨heq, fun ⟨hlayers, ht⟩ => ?_⟩
  obtain ⟨layers', t', hrun⟩ := exists_run (start p)
  obtain ⟨hlayers', ht'⟩ := heq hrun
  obtain ⟨rest, secret⟩ := t
  obtain ⟨rest', secret'⟩ := t'
  cases ht.trans ht'.symm
  rw [hlayers, ← hlayers']
  exact hrun

end Stripping

/-- Both walks over a tree go by what is left of it and by whether a secret layer was taken off.
The loop that strips it stops after taking off just those layers, and each turn leaves less. -/
theorem walks_factor {p core : Property} {secret : Bool} (h : p.unwrap = (core, secret)) :
    core.isEnvelope = false ∧
      (∃ layers, Stripping.Run (.start p) layers ⟨core, secret⟩ ∧ p = core.under layers ∧
        (secret = true ↔ ∃ layer ∈ layers, flagged secretKey layer = true)) ∧
      (∀ layers t, Stripping.Run (.start p) layers t → t = ⟨core, secret⟩) ∧
      (∀ (s s' : Stripping) layer, s.turn? = some (layer, s') → sizeOf s'.rest < sizeOf s.rest) ∧
      p.resolve = core.resolve ∧
      p.redact = if secret then .string redacted else core.redact := by
  have hcore : core = p.core := by rw [← unwrap_fst, h]
  have hsecret : secret = p.layers.any (flagged secretKey) := by rw [← unwrap_snd, h]
  refine ⟨hcore ▸ isEnvelope_core p, ⟨p.layers, ?_, ?_, ?_⟩, ?_, ?_, ?_, ?_⟩
  · exact Stripping.run_start_iff.mpr ⟨rfl, h.symm⟩
  · rw [hcore, under_layers]
  · rw [hsecret, List.any_eq_true]
  · intro layers t hrun
    obtain ⟨rest, flag⟩ := t
    cases (Stripping.run_start_iff.mp hrun).2.trans h
    rfl
  · exact fun s s' layer => Stripping.sizeOf_lt_of_turn?
  · rw [resolve_eq_of_unwrap, h]
  · rw [redact_eq_of_unwrap, h]

theorem walks_factor_inner :
    let p := wrap (wrapSecret (wrap (.sequence [wrapSecret (.bool true)])))
    p.unwrap = (.sequence [wrapSecret (.bool true)], true) ∧
      p.resolve = .array [.bool true] ∧ p.redact = .string "[secret]" := by
  intro p
  have hunwrap : p.unwrap = (.sequence [wrapSecret (.bool true)], true) := by rfl
  obtain ⟨-, -, -, -, hresolve, hredact⟩ := walks_factor hunwrap
  exact ⟨hunwrap, hresolve, hredact⟩

end EnvClient.Property

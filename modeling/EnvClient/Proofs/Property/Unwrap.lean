import EnvClient.Proofs.Property.WellFormed

/-! The payload below the envelopes at the top of a tree. What a tree is resolved or redacted to
depends on that payload and on whether an envelope above it is secret. -/
namespace EnvClient.Property

def layers : Property → List (Members Json)
  | envelope payload metadata => metadata :: payload.layers
  | _ => []

def core : Property → Property
  | envelope payload _ => payload.core
  | p => p

theorem unwrap_eq (p : Property) : p.unwrap = (p.core, p.layers.any (flagged secretKey)) := by
  induction p with
  | envelope payload metadata ih =>
    rw [unwrap, ih]
    rfl
  | _ => rfl

theorem unwrap_fst (p : Property) : p.unwrap.1 = p.core := by rw [unwrap_eq]

theorem unwrap_snd (p : Property) : p.unwrap.2 = p.layers.any (flagged secretKey) := by
  rw [unwrap_eq]

theorem unwrap_envelope (payload : Property) (metadata : Members Json) :
    (envelope payload metadata).unwrap =
      (payload.unwrap.1, flagged secretKey metadata || payload.unwrap.2) := rfl

theorem unwrap_of_not_isEnvelope {p : Property} (h : p.isEnvelope = false) :
    p.unwrap = (p, false) := by
  cases p with
  | envelope payload metadata => cases h
  | _ => rfl

theorem isEnvelope_unwrap (p : Property) : p.unwrap.1.isEnvelope = false := by
  induction p with
  | envelope payload metadata ih => exact ih
  | _ => rfl

theorem isEnvelope_core (p : Property) : p.core.isEnvelope = false := by
  rw [← unwrap_fst]
  exact isEnvelope_unwrap p

theorem wellFormed_unwrap {p : Property} (h : p.WellFormed) : p.unwrap.1.WellFormed := by
  induction p with
  | envelope payload metadata ih => exact ih (wellFormed_envelope.mp h).1
  | _ => exact h

theorem plain_eq_of_unwrap (shouldRedact : Bool) (p : Property) :
    p.plain shouldRedact =
      if shouldRedact && p.unwrap.2 then .string redacted else p.unwrap.1.plain shouldRedact := by
  induction p with
  | envelope payload metadata ih =>
    rw [plain, ih, unwrap_envelope]
    cases shouldRedact with
    | false => rfl
    | true =>
      cases flagged secretKey metadata with
      | false => rfl
      | true => rfl
  | _ =>
    rw [unwrap_of_not_isEnvelope rfl, Bool.and_false]
    rfl

theorem resolve_eq_of_unwrap (p : Property) : p.resolve = p.unwrap.1.resolve :=
  plain_eq_of_unwrap false p

theorem redact_eq_of_unwrap (p : Property) :
    p.redact = if p.unwrap.2 then .string redacted else p.unwrap.1.redact :=
  plain_eq_of_unwrap true p

end EnvClient.Property

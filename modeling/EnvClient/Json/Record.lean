import EnvClient.Json.Decode

/-! Records in JSON. A record is written as an object of its fields and may also be read from
an array of them in order. Members of other names are passed over. -/
namespace EnvClient.Json

/-- A field of a record, with the value it has when it is absent, if it may be. -/
structure Field (α : Type) where
  name : String
  read : Reader α
  absent : Option α

inductive Fields : List Type → Type 1 where
  | nil : Fields []
  | cons {α : Type} {αs : List Type} (field : Field α) (rest : Fields αs) : Fields (α :: αs)

def Row : List Type → Type
  | [] => Unit
  | α :: αs => α × Row αs

def Slots : List Type → Type
  | [] => Unit
  | α :: αs => Option α × Slots αs

namespace Fields

variable {αs : List Type}

def length : {αs : List Type} → Fields αs → Nat
  | _, .nil => 0
  | _, .cons _ rest => rest.length + 1

def noSlots : {αs : List Type} → Fields αs → Slots αs
  | _, .nil => ()
  | _, .cons _ rest => (none, rest.noSlots)

def store? (depth : Nat) (name : String) (value : Doc) :
    {αs : List Type} → Fields αs → Slots αs → Option (Result (Slots αs))
  | _, .nil, _ => none
  | _, .cons field rest, (slot, slots) =>
    if field.name = name then
      some (match slot with
        | some _ => .error (.mismatch (.duplicateField name))
        | none => do return (some (← field.read depth value), slots))
    else (rest.store? depth name value slots).map fun result => (slot, ·) <$> result

/-- The first field in order that is missing and may not be is reported. -/
def complete : {αs : List Type} → Fields αs → Slots αs → Result (Row αs)
  | _, .nil, _ => .ok ()
  | _, .cons field rest, (slot, slots) => do
    match slot.or field.absent with
    | some value => return (value, ← rest.complete slots)
    | none => .error (.mismatch (.missingField field.name))

def readMembers (fields : Fields αs) (depth : Nat) (slots : Slots αs) :
    DocMembers → Result (Row αs)
  | .done => fields.complete slots
  | .member none _ _ => .error .malformed
  | .member (some name) value rest =>
    match fields.store? depth name value slots with
    | some (.ok slots) => readMembers fields depth slots rest
    | some (.error e) => .error e
    | none => do value.skip; readMembers fields depth slots rest
  | .broken fault => .error fault.wanted.error

/-- Missing trailing fields are filled in; more items than fields are malformed. -/
def readItems (record : String) (total depth : Nat) :
    {αs : List Type} → Fields αs → Nat → Items → Result (Row αs)
  | _, .nil, _, .done => .ok ()
  | _, .nil, _, .item _ _ => .error .malformed
  | _, .cons field rest, index, .item value values => do
    let first ← field.read depth value
    return (first, ← rest.readItems record total depth (index + 1) values)
  | _, .cons field rest, index, .done =>
    match field.absent with
    | some value => do return (value, ← rest.readItems record total depth (index + 1) .done)
    | none => .error (.mismatch (.tooShort index record total))
  | _, _, _, .broken fault => .error fault.wanted.error

def read (record : String) (fields : Fields αs) : Reader (Row αs) := fun depth doc =>
  match doc with
  | .object members => Reader.enter depth fun depth =>
    fields.readMembers depth fields.noSlots members
  | .array items => Reader.enter depth fun depth =>
    fields.readItems record fields.length depth 0 items
  | other => other.unexpected (.record record)

end Fields

def required {α : Type} (name : String) (read : Reader α) : Field α := ⟨name, read, none⟩

def defaulted {α : Type} (name : String) (absent : α) (read : Reader α) : Field α :=
  ⟨name, read, some absent⟩

def optional {α : Type} (name : String) (read : Reader α) : Field (Option α) :=
  ⟨name, Reader.option read, some none⟩

def member? {α : Type} (name : String) (write : α → Json) : Option α → List (String × Json)
  | some value => [(name, write value)]
  | none => []

end EnvClient.Json

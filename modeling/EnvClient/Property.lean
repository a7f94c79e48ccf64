import EnvClient.Json.Decode

/-! Property trees. The service wraps each value in an envelope, an object whose member
`value` is the payload and whose other members describe it. Whether an object is an envelope
or a mapping is decided once, when it is read. -/
namespace EnvClient

inductive Property where
  | null
  | bool (value : Bool)
  | number (value : Number)
  | string (value : String)
  | sequence (items : List Property)
  | mapping (entries : List (String × Property))
  | envelope (payload : Property) (metadata : Members Json)
deriving Inhabited, Repr

namespace Property

/-- The member whose presence makes an object an envelope. -/
def valueKey : String := "value"

def secretKey : String := "secret"
def unknownKey : String := "unknown"

/-- A flag is set by the boolean true and by nothing else. -/
def flagged (key : String) (metadata : Members Json) : Bool :=
  ((Members.get? key metadata).bind Json.bool?).getD false

def wrap (payload : Property) : Property := envelope payload []

def wrapSecret (payload : Property) : Property :=
  envelope payload (Members.insert secretKey (.bool true) [])

def isNull : Property → Bool
  | null => true
  | _ => false

def isEnvelope : Property → Bool
  | envelope _ _ => true
  | _ => false

def isScalar : Property → Bool
  | null | bool _ | number _ | string _ => true
  | _ => false

def metadata? : Property → Option (Members Json)
  | envelope _ metadata => some metadata
  | _ => none

def isSecret (p : Property) : Bool := (p.metadata?.map (flagged secretKey)).getD false

def isUnknown (p : Property) : Bool := (p.metadata?.map (flagged unknownKey)).getD false

/-- The first payload below the envelopes at the top, and whether one of them is secret. -/
def unwrap : Property → Property × Bool
  | envelope payload metadata =>
    let (core, secret) := payload.unwrap
    (core, flagged secretKey metadata || secret)
  | core => (core, false)

mutual
def ofJson : Json → Property
  | .null => null
  | .bool value => bool value
  | .number value => number value
  | .string value => string value
  | .array items => sequence (ofItems items)
  | .object members =>
    match payload? members with
    | some payload => envelope payload (Members.erase valueKey members)
    | none => mapping (ofMembers members)
def ofItems : List Json → List Property
  | [] => []
  | item :: rest => ofJson item :: ofItems rest
def ofMembers : List (String × Json) → List (String × Property)
  | [] => []
  | (name, value) :: rest => (name, ofJson value) :: ofMembers rest
def payload? : List (String × Json) → Option Property
  | [] => none
  | (name, value) :: rest => if name = valueKey then some (ofJson value) else payload? rest
end

mutual
/-- The payload of an envelope replaces a metadata member of its name. -/
def toJson : Property → Json
  | null => .null
  | bool value => .bool value
  | number value => .number value
  | string value => .string value
  | sequence items => .array (toItems items)
  | mapping entries => .object (toMembers entries)
  | envelope payload metadata => .object (Members.insert valueKey payload.toJson metadata)
def toItems : List Property → List Json
  | [] => []
  | item :: rest => item.toJson :: toItems rest
def toMembers : List (String × Property) → List (String × Json)
  | [] => []
  | (name, value) :: rest => (name, value.toJson) :: toMembers rest
end

end Property

def Json.Reader.property : Json.Reader Property := fun depth doc => Property.ofJson <$> doc.value depth

end EnvClient

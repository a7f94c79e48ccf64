import EnvClient.Property

/-! Plain values of property trees: every envelope gives way to its payload, and a redacted
tree shows a marker in place of a secret envelope. -/
namespace EnvClient

namespace Property

def redacted : String := "[secret]"

mutual
def plain (redact : Bool) : Property → Json
  | null => .null
  | bool value => .bool value
  | number value => .number value
  | string value => .string value
  | sequence items => .array (plainItems redact items)
  | mapping entries => .object (plainEntries redact entries)
  | envelope payload metadata =>
    if redact && flagged secretKey metadata then .string redacted else payload.plain redact
def plainItems (redact : Bool) : List Property → List Json
  | [] => []
  | item :: rest => item.plain redact :: plainItems redact rest
def plainEntries (redact : Bool) : List (String × Property) → List (String × Json)
  | [] => []
  | (name, value) :: rest => (name, value.plain redact) :: plainEntries redact rest
end

def resolve (p : Property) : Json := p.plain false

def redact (p : Property) : Json := p.plain true

end Property

def Json.resolve (j : Json) : Json := (Property.ofJson j).resolve

end EnvClient

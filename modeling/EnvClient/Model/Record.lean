import EnvClient.Json.Record
import EnvClient.Property.Resolve

/-! Named properties of an opened environment, with the places that define them. -/
namespace EnvClient

open Json (Field Fields Reader Result Doc member? optional defaulted required)

structure Position where
  line : Int32
  column : Int32
  byte : Int32
deriving DecidableEq, Repr

structure SourceRange where
  environment : String
  start : Position
  stop : Position
deriving DecidableEq, Repr

/-- A trace leads to the record that this one was merged over. -/
structure Trace (ρ : Type) where
  definition : Option SourceRange
  base : Option ρ
deriving Repr

inductive Record where
  | mk (value : Property) (secret unknown : Option Bool) (trace : Option (Trace Record))

abbrev NamedProperties := Members Record

namespace Position

def origin : Position := ⟨0, 0, 0⟩

def fields : Fields [Int32, Int32, Int32] :=
  .cons (defaulted "line" 0 Reader.int32) <|
  .cons (defaulted "column" 0 Reader.int32) <|
  .cons (defaulted "byte" 0 Reader.int32) .nil

def read : Reader Position := fun depth doc => do
  let (line, column, byte, ()) ← fields.read "Pos" depth doc
  return ⟨line, column, byte⟩

def toJson (p : Position) : Json :=
  .object [("line", .ofInt32 p.line), ("column", .ofInt32 p.column), ("byte", .ofInt32 p.byte)]

end Position

namespace SourceRange

def fields : Fields [String, Position, Position] :=
  .cons (defaulted "environment" "" Reader.string) <|
  .cons (defaulted "begin" .origin Position.read) <|
  .cons (defaulted "end" .origin Position.read) .nil

def read : Reader SourceRange := fun depth doc => do
  let (environment, start, stop, ()) ← fields.read "Range" depth doc
  return ⟨environment, start, stop⟩

def toJson (r : SourceRange) : Json :=
  .object [("environment", .string r.environment), ("begin", r.start.toJson), ("end", r.stop.toJson)]

end SourceRange

namespace Trace

variable {ρ : Type}

def fields (base : Reader ρ) : Fields [Option SourceRange, Option ρ] :=
  .cons (optional "def" SourceRange.read) <| .cons (optional "base" base) .nil

def read (base : Reader ρ) : Reader (Trace ρ) := fun depth doc => do
  let (definition, base, ()) ← (fields base).read "Trace" depth doc
  return ⟨definition, base⟩

def members (definition : Option SourceRange) (base : Option Json) : List (String × Json) :=
  member? "def" SourceRange.toJson definition ++ member? "base" id base

end Trace

namespace Record

def value : Record → Property
  | mk value _ _ _ => value

def secret : Record → Option Bool
  | mk _ secret _ _ => secret

def unknown : Record → Option Bool
  | mk _ _ unknown _ => unknown

def trace : Record → Option (Trace Record)
  | mk _ _ _ trace => trace

def ofValue (value : Property) : Record := mk value none none none

instance : Inhabited Record := ⟨ofValue .null⟩

def isSecret (r : Record) : Bool := r.secret.getD false

def isUnknown (r : Record) : Bool := r.unknown.getD false

def fields (base : Reader Record) :
    Fields [Property, Option Bool, Option Bool, Option (Trace Record)] :=
  .cons (defaulted "value" .null Reader.property) <|
  .cons (optional "secret" Reader.bool) <|
  .cons (optional "unknown" Reader.bool) <|
  .cons (optional "trace" (Trace.read base)) .nil

def readOver (base : Reader Record) : Reader Record := fun depth doc => do
  let (value, secret, unknown, trace, ()) ← (fields base).read "Value" depth doc
  return mk value secret unknown trace

/-- The base of a record lies two levels below it. -/
def read : Nat → Doc → Result Record
  | depth + 2, doc => readOver (fun _ doc => read depth doc) (depth + 2) doc
  | depth, doc => readOver (fun _ _ => .error .malformed) depth doc

def toJson : Record → Json
  | mk value secret unknown trace =>
    .object (("value", value.toJson) :: (member? "secret" .bool secret ++
      member? "unknown" .bool unknown ++
      match trace with
      | none => []
      | some ⟨definition, none⟩ => [("trace", .object (Trace.members definition none))]
      | some ⟨definition, some base⟩ =>
        [("trace", .object (Trace.members definition (some base.toJson)))]))

end Record

def Trace.toJson (t : Trace Record) : Json :=
  .object (Trace.members t.definition (t.base.map Record.toJson))

namespace NamedProperties

def read : Reader NamedProperties := Reader.map Record.read

def toJson (properties : NamedProperties) : Json :=
  .object (Members.mapValues Record.toJson properties)

def resolve (properties : NamedProperties) : Members Json :=
  Members.mapValues (fun record => record.value.resolve) properties

/-- A record flagged secret is redacted as a whole. -/
def redact (properties : NamedProperties) : Members Json :=
  Members.mapValues (fun record =>
    if record.isSecret then .string Property.redacted else record.value.redact) properties

end NamedProperties
end EnvClient

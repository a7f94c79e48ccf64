import EnvClient.Json.Doc
import EnvClient.Json.Printer
import EnvClient.Text.Message

/-! Typed reading of JSON texts. Every reader walks the tree in text order and stops at the
first fault, be it one of the text or one of the type asked for. Arrays and objects whose
values are wanted may be nested 127 deep. -/
namespace EnvClient.Json

inductive Found where
  | null
  | bool (value : Bool)
  | number (value : Number)
  | string (value : String)
  | sequence
  | map
deriving DecidableEq, Repr

inductive Expected where
  | int32
  | bool
  | string
  | sequence
  | map
  | record (name : String)
deriving DecidableEq, Repr

inductive Mismatch where
  | missingField (name : String)
  | duplicateField (name : String)
  | invalidType (found : Found) (expected : Expected)
  | outOfRange (value : Int) (expected : Expected)
  | tooShort (length : Nat) (record : String) (fields : Nat)
deriving DecidableEq, Repr

inductive ReadError where
  | truncated
  | malformed
  | mismatch (cause : Mismatch)
deriving DecidableEq, Repr

def Found.text : Found → String
  | .null => "null"
  | .bool value => "boolean `" ++ (if value then "true" else "false") ++ "`"
  | .number (.int value fits) => "integer `" ++ (Number.int value fits).text ++ "`"
  | .number (.float value) => "floating point `" ++ (Number.float value).text ++ "`"
  | .string value => "string " ++ Text.quoteForMessage value
  | .sequence => "sequence"
  | .map => "map"

def Expected.text : Expected → String
  | .int32 => "i32"
  | .bool => "a boolean"
  | .string => "a string"
  | .sequence => "a sequence"
  | .map => "a map"
  | .record name => "struct " ++ name

def Mismatch.text : Mismatch → String
  | .missingField name => "missing field `" ++ name ++ "`"
  | .duplicateField name => "duplicate field `" ++ name ++ "`"
  | .invalidType found expected => "invalid type: " ++ found.text ++ ", expected " ++ expected.text
  | .outOfRange value expected =>
    "invalid value: integer `" ++ toString value ++ "`, expected " ++ expected.text
  | .tooShort length record fields =>
    "invalid length " ++ toString length ++ ", expected struct " ++ record ++ " with " ++
      toString fields ++ (if fields = 1 then " element" else " elements")

def ReadError.text : ReadError → String
  | .truncated => "unexpected end of input"
  | .malformed => "malformed JSON"
  | .mismatch cause => cause.text

def Fault.error : Fault → ReadError
  | .truncated => .truncated
  | .malformed => .malformed

abbrev Result (α : Type) := Except ReadError α

/-- A reader is given how deep the value may still be nested. -/
abbrev Reader (α : Type) := Nat → Doc → Result α

/-- Something other than what was asked for. A value that cannot be had is malformed before
it is of the wrong type. -/
def Doc.unexpected {α : Type} (expected : Expected) : Doc → Result α
  | .null => mismatch .null
  | .bool value => mismatch (.bool value)
  | .number (some value) => mismatch (.number value)
  | .string (some value) => mismatch (.string value)
  | .array _ => mismatch .sequence
  | .object _ => mismatch .map
  | .number none | .string none => .error .malformed
  | .broken fault => .error fault.wanted.error
where
  mismatch (found : Found) : Result α := .error (.mismatch (.invalidType found expected))

mutual
def Doc.skip : Doc → Result Unit
  | .array items => items.skip
  | .object members => members.skip
  | .broken fault => .error fault.skipped.error
  | _ => .ok ()
def Items.skip : Items → Result Unit
  | .done => .ok ()
  | .item value rest => do value.skip; rest.skip
  | .broken fault => .error fault.skipped.error
def DocMembers.skip : DocMembers → Result Unit
  | .done => .ok ()
  | .member _ value rest => do value.skip; rest.skip
  | .broken fault => .error fault.skipped.error
end

namespace Reader

def bool : Reader Bool := fun _ doc =>
  match doc with
  | .bool value => .ok value
  | other => other.unexpected .bool

def string : Reader String := fun _ doc =>
  match doc with
  | .string (some value) => .ok value
  | other => other.unexpected .string

def int32 : Reader Int32 := fun _ doc =>
  match doc with
  | .number (some (.int value _)) =>
    if -0x80000000 ≤ value ∧ value < 0x80000000 then .ok (.ofInt value)
    else .error (.mismatch (.outOfRange value .int32))
  | other => other.unexpected .int32

def option {α : Type} (read : Reader α) : Reader (Option α) := fun depth doc =>
  match doc with
  | .null => .ok none
  | other => some <$> read depth other

def enter {α : Type} (depth : Nat) (read : Nat → Result α) : Result α :=
  match depth with
  | 0 => .error .malformed
  | depth + 1 => read depth

def items {α : Type} (read : Doc → Result α) : Items → Result (List α)
  | .done => .ok []
  | .item value rest => do
    let first ← read value
    return first :: (← items read rest)
  | .broken fault => .error fault.wanted.error

def list {α : Type} (read : Reader α) : Reader (List α) := fun depth doc =>
  match doc with
  | .array values => enter depth fun depth => items (read depth) values
  | other => other.unexpected .sequence

def members {α : Type} (read : Doc → Result α) (m : Members α) : DocMembers → Result (Members α)
  | .done => .ok m
  | .member none _ _ => .error .malformed
  | .member (some name) value rest => do
    members read (Members.insert name (← read value) m) rest
  | .broken fault => .error fault.wanted.error

/-- An object as a map; of two members of one name the later wins. -/
def map {α : Type} (read : Reader α) : Reader (Members α) := fun depth doc =>
  match doc with
  | .object values => enter depth fun depth => members (read depth) [] values
  | other => other.unexpected .map

end Reader

mutual
/-- Any value, with the members of its objects sorted. -/
def Doc.value : Nat → Doc → Result Json
  | _, .null => .ok .null
  | _, .bool value => .ok (.bool value)
  | _, .number (some value) => .ok (.number value)
  | _, .string (some value) => .ok (.string value)
  | _, .number none | _, .string none => .error .malformed
  | depth, .array items =>
    match depth with
    | 0 => .error .malformed
    | depth + 1 => .array <$> items.values depth
  | depth, .object members =>
    match depth with
    | 0 => .error .malformed
    | depth + 1 => .object <$> members.values depth []
  | _, .broken fault => .error fault.wanted.error
def Items.values : Nat → Items → Result (List Json)
  | _, .done => .ok []
  | depth, .item value rest => do
    let first ← value.value depth
    return first :: (← rest.values depth)
  | _, .broken fault => .error fault.wanted.error
def DocMembers.values : Nat → Members Json → DocMembers → Result (Members Json)
  | _, m, .done => .ok m
  | _, _, .member none _ _ => .error .malformed
  | depth, m, .member (some name) value rest => do
    rest.values depth (Members.insert name (← value.value depth) m)
  | _, _, .broken fault => .error fault.wanted.error
end

def Reader.json : Reader Json := Doc.value

def maxDepth : Nat := 127

def decode {α : Type} (read : Reader α) (text : String) : Result α := do
  let (doc, trailing) := Doc.ofText text.toList
  let value ← read maxDepth doc
  if trailing then .error .malformed else return value

end EnvClient.Json

import EnvClient.Model.Diagnostic

/-! Payloads of the service's answers. -/
namespace EnvClient

open Json (Fields Reader member? optional defaulted required)

class Payload (α : Type) where
  read : Reader α
  toJson : α → Json

structure Environment where
  exprs : Option (Members Json)
  properties : Option NamedProperties
  schema : Option Json

structure Summary where
  organization : Option String
  project : Option String
  name : String
  created : String
  modified : String
deriving DecidableEq, Repr

structure Page where
  environments : List Summary
  token : Option String
deriving DecidableEq, Repr

structure Session where
  id : String
  diagnostics : Option (List Diagnostic)
deriving DecidableEq, Repr

/-- The answer to an update: no diagnostics means no complaint. -/
structure Report where
  diagnostics : Option (List Diagnostic)
deriving DecidableEq, Repr

structure Check where
  exprs : Option (Members Json)
  properties : Option NamedProperties
  schema : Option Json
  diagnostics : Option (List Diagnostic)

structure Failure where
  message : Option String
  diagnostics : Option (List Diagnostic)
deriving DecidableEq, Repr

instance : Payload Record := ⟨Record.read, Record.toJson⟩

def objectJson (members : Members Json) : Json := .object members

namespace Environment

def fields : Fields [Option (Members Json), Option NamedProperties, Option Json] :=
  .cons (optional "exprs" (Reader.map Reader.json)) <|
  .cons (optional "properties" NamedProperties.read) <|
  .cons (optional "schema" Reader.json) .nil

def read : Reader Environment := fun depth doc => do
  let (exprs, properties, schema, ()) ← fields.read "Environment" depth doc
  return ⟨exprs, properties, schema⟩

def toJson (e : Environment) : Json :=
  .object (member? "exprs" objectJson e.exprs ++
    member? "properties" NamedProperties.toJson e.properties ++ member? "schema" id e.schema)

instance : Payload Environment := ⟨read, toJson⟩

end Environment

namespace Summary

def fields : Fields [Option String, Option String, String, String, String] :=
  .cons (optional "organization" Reader.string) <|
  .cons (optional "project" Reader.string) <|
  .cons (required "name" Reader.string) <|
  .cons (defaulted "created" "" Reader.string) <|
  .cons (defaulted "modified" "" Reader.string) .nil

def read : Reader Summary := fun depth doc => do
  let (organization, project, name, created, modified, ()) ←
    fields.read "OrgEnvironment" depth doc
  return ⟨organization, project, name, created, modified⟩

def toJson (s : Summary) : Json :=
  .object (member? "organization" .string s.organization ++
    member? "project" .string s.project ++
    [("name", .string s.name), ("created", .string s.created), ("modified", .string s.modified)])

def line (s : Summary) : String :=
  match s.project with
  | some project => project ++ "/" ++ s.name ++ "\n"
  | none => s.name ++ "\n"

end Summary

namespace Page

def fields : Fields [List Summary, Option String] :=
  .cons (defaulted "environments" [] (Reader.list Summary.read)) <|
  .cons (optional "nextToken" Reader.string) .nil

def read : Reader Page := fun depth doc => do
  let (environments, token, ()) ← fields.read "OrgEnvironments" depth doc
  return ⟨environments, token⟩

def toJson (p : Page) : Json :=
  .object (("environments", .array (p.environments.map Summary.toJson)) ::
    member? "nextToken" .string p.token)

/-- The token of the following page; an empty one means that this page is the last. -/
def next? (p : Page) : Option String := p.token.filter (· != "")

instance : Payload Page := ⟨read, toJson⟩

end Page

namespace Session

def fields : Fields [String, Option (List Diagnostic)] :=
  .cons (required "id" Reader.string) <|
  .cons (optional "diagnostics" Diagnostic.readList) .nil

def read : Reader Session := fun depth doc => do
  let (id, diagnostics, ()) ← fields.read "OpenEnvironment" depth doc
  return ⟨id, diagnostics⟩

def toJson (s : Session) : Json :=
  .object (("id", .string s.id) :: member? "diagnostics" Diagnostic.listToJson s.diagnostics)

instance : Payload Session := ⟨read, toJson⟩

end Session

namespace Report

def empty : Report := ⟨none⟩

def fields : Fields [Option (List Diagnostic)] :=
  .cons (optional "diagnostics" Diagnostic.readList) .nil

def read : Reader Report := fun depth doc => do
  let (diagnostics, ()) ← fields.read "EnvironmentDiagnostics" depth doc
  return ⟨diagnostics⟩

def toJson (r : Report) : Json :=
  .object (member? "diagnostics" Diagnostic.listToJson r.diagnostics)

def list (r : Report) : List Diagnostic := r.diagnostics.getD []

def isEmpty (r : Report) : Bool := r.list.isEmpty

instance : Payload Report := ⟨read, toJson⟩

end Report

namespace Check

def empty : Check := ⟨none, none, none, none⟩

def fields :
    Fields [Option (Members Json), Option NamedProperties, Option Json, Option (List Diagnostic)] :=
  .cons (optional "exprs" (Reader.map Reader.json)) <|
  .cons (optional "properties" NamedProperties.read) <|
  .cons (optional "schema" Reader.json) <|
  .cons (optional "diagnostics" Diagnostic.readList) .nil

def read : Reader Check := fun depth doc => do
  let (exprs, properties, schema, diagnostics, ()) ← fields.read "CheckEnvironment" depth doc
  return ⟨exprs, properties, schema, diagnostics⟩

def toJson (c : Check) : Json :=
  .object (member? "exprs" objectJson c.exprs ++
    member? "properties" NamedProperties.toJson c.properties ++ member? "schema" id c.schema ++
    member? "diagnostics" Diagnostic.listToJson c.diagnostics)

def list (c : Check) : List Diagnostic := c.diagnostics.getD []

def isValid (c : Check) : Bool := c.list.isEmpty

instance : Payload Check := ⟨read, toJson⟩

end Check

namespace Failure

def fields : Fields [Option String, Option (List Diagnostic)] :=
  .cons (optional "message" Reader.string) <|
  .cons (optional "diagnostics" Diagnostic.readList) .nil

def read : Reader Failure := fun depth doc => do
  let (message, diagnostics, ()) ← fields.read "ErrorResponse" depth doc
  return ⟨message, diagnostics⟩

end Failure
end EnvClient

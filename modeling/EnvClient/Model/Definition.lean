import EnvClient.Json.Record

/-! Definitions of environments: imports, and values with three sections of their own. -/
namespace EnvClient

open Json (Fields Reader Result Doc DocMembers member? optional defaulted)

/-- The values of a definition. Names other than those of the sections are kept beside them. -/
structure Values where
  config : Option (Members Json)
  environment : Option (Members Json)
  files : Option (Members Json)
  others : Members Json
deriving DecidableEq

structure Definition where
  imports : List String
  values : Option Values
deriving DecidableEq

namespace Values

inductive Section where
  | config
  | environment
  | files
deriving DecidableEq, Repr

def Section.name : Section → String
  | config => "pulumiConfig"
  | environment => "environmentVariables"
  | files => "files"

def Section.ofName? (name : String) : Option Section :=
  [config, environment, files].find? (·.name == name)

/-- The members met so far; a section that was null has been met. -/
structure Partial where
  sections : List (Section × Option (Members Json))
  others : Members Json

namespace Partial

def empty : Partial := ⟨[], []⟩

def section? (p : Partial) (s : Section) : Option (Option (Members Json)) := p.sections.lookup s

def get (p : Partial) (s : Section) : Option (Members Json) := (p.section? s).join

def toValues (p : Partial) : Values := ⟨p.get .config, p.get .environment, p.get .files, p.others⟩

end Partial

/-- A section may be met once and is null or a map; of other members the last of a name is kept. -/
def readMembers (depth : Nat) (p : Partial) : DocMembers → Result Partial
  | .done => .ok p
  | .member none _ _ => .error .malformed
  | .member (some name) value rest =>
    match Section.ofName? name with
    | some s =>
      if (p.section? s).isSome then .error (.mismatch (.duplicateField name))
      else do
        let entries ← Reader.option (Reader.map Reader.json) depth value
        readMembers depth { p with sections := (s, entries) :: p.sections } rest
    | none => do
      let value ← value.value depth
      readMembers depth { p with others := Members.insert name value p.others } rest
  | .broken fault => .error fault.wanted.error

def read : Reader Values := fun depth doc =>
  match doc with
  | .object members => Reader.enter depth fun depth =>
    Partial.toValues <$> readMembers depth .empty members
  | other => other.unexpected (.record "EnvironmentDefinitionValues")

def toMembers (v : Values) : List (String × Json) :=
  member? Section.config.name .object v.config ++
    member? Section.environment.name .object v.environment ++
    member? Section.files.name .object v.files ++ v.others

def toJson (v : Values) : Json := .object v.toMembers

end Values

namespace Definition

def empty : Definition := ⟨[], none⟩

def fields : Fields [List String, Option Values] :=
  .cons (defaulted "imports" [] (Reader.list Reader.string)) <|
  .cons (optional "values" Values.read) .nil

def read : Reader Definition := fun depth doc => do
  let (imports, values, ()) ← fields.read "EnvironmentDefinition" depth doc
  return ⟨imports, values⟩

def toJson (d : Definition) : Json :=
  .object ((if d.imports.isEmpty then [] else
      [("imports", .array (d.imports.map .string))]) ++
    member? "values" Values.toJson d.values)

end Definition
end EnvClient

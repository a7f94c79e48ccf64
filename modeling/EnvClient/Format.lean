import EnvClient.Projection
import EnvClient.Yaml.Printer

/-! Formats in which values and environments are written. Two of them hold any value; the
other two hold the variables of an environment, one assignment a line. -/
namespace EnvClient

inductive Format where
  | json
  | yaml
  | dotenv
  | shell
deriving DecidableEq, Repr

namespace Format

def name : Format → String
  | json => "json"
  | yaml => "yaml"
  | dotenv => "dotenv"
  | shell => "shell"

def all : List Format := [json, yaml, dotenv, shell]

def ofName? (name : String) : Option Format := all.find? (·.name == name)

def isStructured : Format → Bool
  | json | yaml => true
  | dotenv | shell => false

/-- Why the format cannot be used; a property on its own needs a structured format. -/
def refusal? (f : Format) (property : Option String) : Option String :=
  if property.isSome && !f.isStructured then
    some ("--format " ++ f.name ++ " cannot be combined with --property")
  else none

def value (f : Format) (j : Json) : String :=
  match f with
  | yaml => Yaml.print j
  | _ => j.pretty ++ "\n"

end Format

structure EnvironmentOptions where
  format : Format
  showSecrets : Bool
  /-- Leaves files unwritten; their paths are not known then. -/
  pretend : Bool
deriving DecidableEq, Repr

namespace NamedProperties

def shown (properties : Option NamedProperties) (showSecrets : Bool) : Json :=
  match properties with
  | none => .null
  | some ps => .object (if showSecrets then ps.resolve else ps.redact)

/-- The text of an environment. Only the assignment formats write files. -/
def write (properties : Option NamedProperties) (options : EnvironmentOptions) (d : Disk) :
    Except StorageFault String × Disk :=
  if options.format.isStructured then
    (.ok (options.format.value (shown properties options.showSecrets)), d)
  else
    let (result, d) := (properties.getD []).prepare ⟨true, !options.showSecrets, options.pretend⟩ d
    (result.map (·.render (options.format == .shell)), d)

end NamedProperties
end EnvClient

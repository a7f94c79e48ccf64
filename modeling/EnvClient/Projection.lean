import EnvClient.Model.Record
import EnvClient.Storage

/-! Projections of an opened environment onto process environment variables. Scalar entries
of one section become variables; those of another become files whose paths are variables. -/
namespace EnvClient

/-- The text of a scalar entry, and whether it came from a secret. -/
structure Projected where
  text : String
  secret : Bool
deriving DecidableEq, Repr

namespace Property

def scalarText? : Property → Option String
  | null => some ""
  | bool value => some (if value then "true" else "false")
  | number value => some value.text
  | string value => some value
  | _ => none

def entries? : Property → Option (List (String × Property))
  | mapping entries => some entries
  | _ => none

end Property

namespace NamedProperties

def variablesKey : String := "environmentVariables"
def filesKey : String := "files"

/-- An entry is secret if its record, an envelope around the section or one around the entry is. -/
def projectEntry (inherited : Bool) (entry : String × Property) : Option (String × Projected) :=
  let (core, secret) := entry.2.unwrap
  core.scalarText?.map fun text => (entry.1, ⟨text, inherited || secret⟩)

def project (key : String) (properties : NamedProperties) : Members Projected :=
  match Members.get? key properties with
  | none => []
  | some record =>
    let (core, secret) := record.value.unwrap
    (core.entries?.getD []).filterMap (projectEntry (record.isSecret || secret))

def environment (properties : NamedProperties) : Members Projected := properties.project variablesKey

def files (properties : NamedProperties) : Members Projected := properties.project filesKey

end NamedProperties

structure PrepareOptions where
  quote : Bool
  redact : Bool
  pretend : Bool
deriving DecidableEq, Repr

structure Prepared where
  quote : Bool
  assignments : List (String × String)
  files : List String
  secrets : List String
deriving DecidableEq, Repr

namespace Prepared

def unknownPath : String := "[unknown]"

def pair (quote : Bool) (assignment : String × String) : String :=
  assignment.1 ++ "=" ++ (if quote then Json.quote assignment.2 else assignment.2)

def environ (p : Prepared) : List String := p.assignments.map (pair p.quote)

def render (p : Prepared) (isExport : Bool) : String :=
  String.join (p.environ.map fun pair => (if isExport then "export " else "") ++ pair ++ "\n")

def removeFiles (p : Prepared) (d : Disk) : Disk := d.removeAll p.files

def addVariable (redact : Bool) (p : Prepared) (entry : String × Projected) : Prepared :=
  let shown := if entry.2.secret && redact then Property.redacted else entry.2.text
  { p with
    assignments := p.assignments ++ [(entry.1, shown)]
    secrets := if entry.2.secret then p.secrets ++ [entry.2.text] else p.secrets }

def addPath (p : Prepared) (entry : String × Projected) (path : String) : Prepared :=
  { p with
    assignments := p.assignments ++ [(entry.1, path)]
    secrets := if entry.2.secret then p.secrets ++ [entry.2.text] else p.secrets }

/-- At the first file that cannot be written, those already written are removed. -/
def addFiles (pretend : Bool) (p : Prepared) :
    List (String × Projected) → Disk → Except StorageFault Prepared × Disk
  | [], d => (.ok p, d)
  | entry :: rest, d =>
    if pretend then addFiles pretend (p.addPath entry unknownPath) rest d
    else match d.writeTemporary entry.2.text with
      | (.ok path, d) =>
        let p := p.addPath entry path
        addFiles pretend { p with files := p.files ++ [path] } rest d
      | (.error fault, d) => (.error fault, p.removeFiles d)

end Prepared

/-- Variables come first, then one variable a file. -/
def NamedProperties.prepare (properties : NamedProperties) (options : PrepareOptions) (d : Disk) :
    Except StorageFault Prepared × Disk :=
  let empty : Prepared := ⟨options.quote, [], [], []⟩
  let p := properties.environment.foldl (Prepared.addVariable options.redact) empty
  p.addFiles options.pretend properties.files d

end EnvClient

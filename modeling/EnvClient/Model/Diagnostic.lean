import EnvClient.Model.Record

/-! Complaints of the service about a definition. -/
namespace EnvClient

open Json (Fields Reader member? optional defaulted)

structure Diagnostic where
  summary : String
  path : Option String
  range : Option SourceRange
deriving DecidableEq, Repr

namespace Diagnostic

def fields : Fields [String, Option String, Option SourceRange] :=
  .cons (defaulted "summary" "" Reader.string) <|
  .cons (optional "path" Reader.string) <|
  .cons (optional "range" SourceRange.read) .nil

def read : Reader Diagnostic := fun depth doc => do
  let (summary, path, range, ()) ← fields.read "EnvironmentDiagnostic" depth doc
  return ⟨summary, path, range⟩

def toJson (d : Diagnostic) : Json :=
  .object (("summary", .string d.summary) ::
    (member? "path" .string d.path ++ member? "range" SourceRange.toJson d.range))

def readList : Reader (List Diagnostic) := Reader.list read

def listToJson (ds : List Diagnostic) : Json := .array (ds.map toJson)

def line (d : Diagnostic) : String :=
  match d.path with
  | some path => path ++ ": " ++ d.summary ++ "\n"
  | none => d.summary ++ "\n"

def lines (ds : List Diagnostic) : String := String.join (ds.map line)

end Diagnostic
end EnvClient

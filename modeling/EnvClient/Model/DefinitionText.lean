import EnvClient.Model.Definition
import EnvClient.Text.Blank
import EnvClient.Yaml.Printer
import EnvClient.Yaml.Value

/-! Definitions as YAML texts, in which environments are written and stored. -/
namespace EnvClient

open Yaml (Node Document)

namespace Values

def sectionOfYaml? (depth : Nat) (node : Node) : Option (Option (Members Json)) := do
  if ← node.isNull? then return none
  match depth with
  | 0 => none
  | depth + 1 => some <$> Node.jsonEntries? true depth (← node.entries?) []

def membersOfYaml? (depth : Nat) (p : Partial) : List (Node × Node) → Option Partial
  | [] => some p
  | (key, value) :: rest => do
    let name ← key.text?
    match Section.ofName? name with
    | some s =>
      if (p.section? s).isSome then none
      else
        let entries ← sectionOfYaml? depth value
        membersOfYaml? depth { p with sections := (s, entries) :: p.sections } rest
    | none =>
      let value ← Node.json? false depth value
      membersOfYaml? depth { p with others := Members.insert name value p.others } rest

def ofYaml? (depth : Nat) (node : Node) : Option (Option Values) := do
  if ← node.isNull? then return none
  match depth with
  | 0 => none
  | depth + 1 =>
    (membersOfYaml? depth .empty (← node.entries?)).map fun p => some p.toValues

end Values

namespace Definition

def importsOfYaml? (node : Node) : Option (List String) := do (← node.list?).mapM Node.text?

structure Partial where
  imports : Option (List String)
  values : Option (Option Values)

/-- Other members are passed over; aliases in them are not followed. -/
def membersOfYaml? (d : Document) (depth : Nat) (p : Partial) :
    List (Node × Node) → Yaml.Node.Budget → Option Partial
  | [], _ => some p
  | (key, value) :: rest, budget => do
    let (key, budget) ← d.expand key budget
    let name ← key.text?
    if name = "imports" then
      let (value, budget) ← d.expand value budget
      let imports ← importsOfYaml? value
      if p.imports.isSome then none
      else membersOfYaml? d depth { p with imports := some imports } rest budget
    else if name = "values" then
      let (value, budget) ← d.expand value budget
      let values ← Values.ofYaml? depth value
      if p.values.isSome then none
      else membersOfYaml? d depth { p with values := some values } rest budget
    else membersOfYaml? d depth p rest budget

/-- A blank text and a document without content are the empty definition. -/
def ofYaml? (s : String) : Option Definition :=
  if Text.isBlank s then some .empty
  else do
    let d ← Document.ofText? s
    match d.root with
    | none => return .empty
    | some root =>
      let p ← membersOfYaml? d (Yaml.maxDepth - 1) ⟨none, none⟩ (← root.entries?) d.budget
      return ⟨p.imports.getD [], p.values.join⟩

def toYaml (d : Definition) : String := Yaml.print d.toJson

end Definition
end EnvClient

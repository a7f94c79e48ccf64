import EnvClient.Yaml.Token

/-! Trees of YAML documents. An anchor is numbered by how many names are known when it is met;
an alias holds the number that its name had last, and stands for the last node of that number. -/
namespace EnvClient.Yaml

/-- Tags are kept as bytes, which need not be a text. -/
abbrev Tag := List UInt8

structure Properties where
  anchor : Option Nat
  tag : Option Tag
deriving DecidableEq, Repr

inductive Node where
  | reference (number : Nat)
  | scalar (properties : Properties) (plain : Bool) (text : String)
  | sequence (properties : Properties) (items : List Node)
  | mapping (properties : Properties) (entries : List (Node × Node))
deriving Inhabited, Repr

namespace Node

def bare : Properties := ⟨none, none⟩

def empty : Node := scalar bare true ""

def anchored (node : Node) : Option Nat → List (Nat × Node)
  | some number => [(number, node)]
  | none => []

mutual
def anchors : Node → List (Nat × Node)
  | reference _ => []
  | scalar p plain text => anchored (scalar p plain text) p.anchor
  | sequence p items => anchored (sequence p items) p.anchor ++ anchorsItems items
  | mapping p entries => anchored (mapping p entries) p.anchor ++ anchorsEntries entries
def anchorsItems : List Node → List (Nat × Node)
  | [] => []
  | item :: rest => item.anchors ++ anchorsItems rest
def anchorsEntries : List (Node × Node) → List (Nat × Node)
  | [] => []
  | (key, value) :: rest => key.anchors ++ value.anchors ++ anchorsEntries rest
end

mutual
def size : Node → Nat
  | reference _ => 1
  | scalar _ _ _ => 1
  | sequence _ items => sizeItems items + 2
  | mapping _ entries => sizeEntries entries + 2
def sizeItems : List Node → Nat
  | [] => 0
  | item :: rest => item.size + sizeItems rest
def sizeEntries : List (Node × Node) → Nat
  | [] => 0
  | (key, value) :: rest => key.size + value.size + sizeEntries rest
end

abbrev Budget := Nat

abbrev Expand (α : Type) := Budget → Option (α × Budget)

mutual
def expandWith (follow : Nat → Expand Node) : Node → Expand Node
  | reference number, budget => follow number budget
  | scalar p plain text, budget => some (scalar p plain text, budget)
  | sequence p items, budget =>
    (expandItems follow items budget).map fun (items, budget) => (sequence p items, budget)
  | mapping p entries, budget =>
    (expandEntries follow entries budget).map fun (entries, budget) => (mapping p entries, budget)
def expandItems (follow : Nat → Expand Node) : List Node → Expand (List Node)
  | [], budget => some ([], budget)
  | item :: rest, budget => do
    let (item, budget) ← expandWith follow item budget
    let (rest, budget) ← expandItems follow rest budget
    return (item :: rest, budget)
def expandEntries (follow : Nat → Expand Node) : List (Node × Node) → Expand (List (Node × Node))
  | [], budget => some ([], budget)
  | (key, value) :: rest, budget => do
    let (key, budget) ← expandWith follow key budget
    let (value, budget) ← expandWith follow value budget
    let (rest, budget) ← expandEntries follow rest budget
    return ((key, value) :: rest, budget)
end

/-- Follows an alias to a node, and the aliases below it, to a depth of `fuel`. -/
def follow (anchors : List (Nat × Node)) : (fuel : Nat) → Nat → Expand Node
  | 0, _, _ => none
  | fuel + 1, number, budget =>
    match budget, (anchors.reverse.lookup number) with
    | budget + 1, some node => expandWith (follow anchors fuel) node budget
    | _, _ => none

end Node

structure Document where
  root : Option Node
deriving Repr

namespace Document

def anchors (d : Document) : List (Nat × Node) := (d.root.map Node.anchors).getD []

/-- Aliases may be followed a hundred times for each part of the document. -/
def budget (d : Document) : Node.Budget := 100 * (d.root.map Node.size).getD 1

def expand (d : Document) (node : Node) (budget : Node.Budget) : Option (Node × Node.Budget) :=
  node.expandWith (Node.follow d.anchors d.budget) budget

end Document
end EnvClient.Yaml

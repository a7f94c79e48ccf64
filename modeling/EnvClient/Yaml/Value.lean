import EnvClient.Text.Utf8
import EnvClient.Yaml.Node.Parser
import EnvClient.Yaml.Scalar

/-! Values of YAML documents. Scalars are taken by their tags, or by what they look like where
they are plain. Collections may be nested 128 deep. -/
namespace EnvClient.Yaml

namespace Tag

def standard (name : String) : Tag := ("tag:yaml.org,2002:" ++ name).toUTF8.toList

def startsLocal (tag : Tag) : Bool := tag.head? == some 0x21

/-- A tag of the document's own; one whose rest is no text is not one. -/
def isLocal (tag : Tag) : Bool :=
  tag.startsLocal && (Text.Utf8.text? (tag.drop 1)).isSome

end Tag

/-- The value that a scalar's appearance gives it; none for a number that is too wide. -/
def Meaning.json? (text : String) : Meaning → Option Json
  | .null | .nonFinite => some .null
  | .bool value => some (.bool value)
  | .number value => some (.number value)
  | .wide => none
  | .text => some (.string text)

namespace Scalar

def untagged? (text : String) : Option Json := (meaning text.toList).json? text

/-- The value of a scalar with a tag. Tags other than those of plain values ask for a text. -/
def tagged? (tag : Tag) (plain : Bool) (text : String) : Option Json :=
  let chars := text.toList
  if tag.isLocal then none
  else if tag = Tag.standard "bool" then (bool? chars).map .bool
  else if tag = Tag.standard "int" then (integerMeaning? chars).bind (Meaning.json? text)
  else if tag = Tag.standard "float" then (floatMeaning? chars).bind (Meaning.json? text)
  else if tag = Tag.standard "null" then if isNull chars then some .null else none
  else if tag.startsLocal && plain then untagged? text
  else some (.string text)

def json? (p : Properties) (plain : Bool) (text : String) : Option Json :=
  match p.tag with
  | some tag => tagged? tag plain text
  | none => if plain then untagged? text else some (.string text)

end Scalar

namespace Node

def text? : Node → Option String
  | scalar _ _ text => some text
  | _ => none

/-- A key is taken by its text, or must have a text for its value. -/
def key? (byText : Bool) : Node → Option String
  | scalar p plain text =>
    if byText then some text
    else match Scalar.json? p plain text with
      | some (.string text) => some text
      | _ => none
  | _ => none

def isLocal (p : Properties) : Bool := p.tag.any Tag.isLocal

mutual
def json? (byText : Bool) : (depth : Nat) → Node → Option Json
  | _, reference _ => none
  | _, scalar p plain text => Scalar.json? p plain text
  | 0, _ => none
  | depth + 1, sequence p items =>
    if isLocal p then none else (jsonItems? byText depth items).map .array
  | depth + 1, mapping p entries =>
    if isLocal p then none else (jsonEntries? byText depth entries []).map .object
def jsonItems? (byText : Bool) : (depth : Nat) → List Node → Option (List Json)
  | _, [] => some []
  | depth, item :: rest => do
    let first ← json? byText depth item
    return first :: (← jsonItems? byText depth rest)
def jsonEntries? (byText : Bool) :
    (depth : Nat) → List (Node × Node) → Members Json → Option (Members Json)
  | _, [], m => some m
  | depth, (key, value) :: rest, m => do
    let name ← key? byText key
    let value ← json? byText depth value
    jsonEntries? byText depth rest (Members.insert name value m)
end

def isAbsent : Node → Bool
  | scalar _ plain text => plain && text == ""
  | _ => false

def list? (node : Node) : Option (List Node) :=
  match node with
  | sequence _ items => some items
  | other => if other.isAbsent then some [] else none

def entries? (node : Node) : Option (List (Node × Node)) :=
  match node with
  | mapping _ entries => some entries
  | other => if other.isAbsent then some [] else none

def isNull? : Node → Option Bool
  | scalar p plain text =>
    if !plain then some false
    else match p.tag with
      | none => some (text == "" || Scalar.isNull text.toList)
      | some tag =>
        if tag = Tag.standard "null" then
          if Scalar.isNull text.toList then some true else none
        else some false
  | _ => some false

end Node

def maxDepth : Nat := 128

/-- The only document of a text as a plain value; a document without content is null. Keys are
taken by their texts. -/
def readValue? (s : String) : Option Json := do
  let d ← Document.ofText? s
  match d.root with
  | none => return .null
  | some root =>
    let (node, _) ← d.expand root d.budget
    node.json? true maxDepth

end EnvClient.Yaml

import EnvClient.Yaml.Node
import EnvClient.Yaml.Token.Lexer

/-! From the words of a text to the tree of its only document. -/
namespace EnvClient.Yaml

/-- The words to come, the numbers of the anchors met, and what the tag handles stand for. -/
structure Parser where
  tokens : List Token
  anchors : List (String × Nat)
  handles : List (String × Tag)
deriving Repr

namespace Parser

abbrev Parse (α : Type) := Parser → Option (α × Parser)

def peek (p : Parser) : Option Token := p.tokens.head?

def skip (p : Parser) : Parser := { p with tokens := p.tokens.drop 1 }

def isAt (ts : List Token) (p : Parser) : Bool := p.peek.any ts.contains

/-- A name that is met again is numbered anew, but is still one name. -/
def addAnchor (name : String) (p : Parser) : Nat × Parser :=
  let number := p.anchors.length
  (number, { p with anchors := (name, number) :: p.anchors.filter (·.1 != name) })

def resolveTag (t : Token.TagName) (p : Parser) : Option Tag :=
  if t.handle = "" then some t.rest
  else (p.handles.lookup t.handle).map fun expansion => expansion ++ t.rest

/-- An anchor and a tag in any order, each at most once. -/
def properties (p : Parser) : Option (Properties × Parser) :=
  match p.tokens with
  | .anchor name :: .tag t :: rest => do
    let tag ← p.resolveTag t
    let (number, p) := p.addAnchor name
    return (⟨some number, some tag⟩, { p with tokens := rest })
  | .anchor name :: rest =>
    let (number, p) := p.addAnchor name
    some (⟨some number, none⟩, { p with tokens := rest })
  | .tag t :: .anchor name :: rest => do
    let tag ← p.resolveTag t
    let (number, p) := p.addAnchor name
    return (⟨some number, some tag⟩, { p with tokens := rest })
  | .tag t :: rest => do return (⟨none, some (← p.resolveTag t)⟩, { p with tokens := rest })
  | _ => some (⟨none, none⟩, p)

def orEmpty (ends : List Token) (node : Parse Node) : Parse Node := fun p =>
  if p.isAt ends then some (Node.empty, p) else node p

def lone (properties : Properties) : Parse Node := fun p =>
  if properties = Node.bare then none else some (.scalar properties true "", p)

mutual
/-- A node. Block collections are admitted where `block` is set, and a sequence that is not
indented where `beside` is. -/
def node : (fuel : Nat) → (block beside : Bool) → Parse Node
  | 0, _, _, _ => none
  | fuel + 1, block, beside, p =>
    match p.tokens with
    | .reference name :: rest => do
      return (.reference (← p.anchors.lookup name), { p with tokens := rest })
    | _ => do
      let (properties, p) ← p.properties
      match p.tokens with
      | .entry :: _ =>
        if beside then
          (besideItems fuel p).map fun (items, p) => (.sequence properties items, p)
        else lone properties p
      | .scalar plain text :: _ => some (.scalar properties plain text, p.skip)
      | .flowSequence :: _ =>
        (flowItems fuel true p.skip).map fun (items, p) => (.sequence properties items, p)
      | .flowMapping :: _ =>
        (flowEntries fuel true p.skip).map fun (entries, p) => (.mapping properties entries, p)
      | .blockSequence :: _ =>
        if block then (blockItems fuel p.skip).map fun (items, p) => (.sequence properties items, p)
        else lone properties p
      | .blockMapping :: _ =>
        if block then
          (blockEntries fuel p.skip).map fun (entries, p) => (.mapping properties entries, p)
        else lone properties p
      | _ => lone properties p
def blockItems : (fuel : Nat) → Parse (List Node)
  | 0, _ => none
  | fuel + 1, p =>
    match p.peek with
    | some .entry => do
      let (item, p) ← orEmpty [.entry, .blockEnd] (node fuel true false) p.skip
      let (rest, p) ← blockItems fuel p
      return (item :: rest, p)
    | some .blockEnd => some ([], p.skip)
    | _ => none
/-- The items of a sequence that is not indented; any other word ends it. -/
def besideItems : (fuel : Nat) → Parse (List Node)
  | 0, _ => none
  | fuel + 1, p =>
    match p.peek with
    | some .entry => do
      let (item, p) ← orEmpty [.entry, .key, .value, .blockEnd] (node fuel true false) p.skip
      let (rest, p) ← besideItems fuel p
      return (item :: rest, p)
    | _ => some ([], p)
def blockEntries : (fuel : Nat) → Parse (List (Node × Node))
  | 0, _ => none
  | fuel + 1, p =>
    match p.peek with
    | some .key => do
      let (key, p) ← orEmpty [.key, .value, .blockEnd] (node fuel true true) p.skip
      let (value, p) ←
        if p.peek = some .value then
          orEmpty [.key, .value, .blockEnd] (node fuel true true) p.skip
        else some (Node.empty, p)
      let (rest, p) ← blockEntries fuel p
      return ((key, value) :: rest, p)
    | some .blockEnd => some ([], p.skip)
    | _ => none
/-- An item with a key is a mapping of one entry. Where that key is left out, the word in its
place is passed over. -/
def flowItems : (fuel : Nat) → (first : Bool) → Parse (List Node)
  | 0, _, _ => none
  | fuel + 1, first, p =>
    if p.peek = some .flowSequenceEnd then some ([], p.skip)
    else if first ∨ p.peek = some .comma then
      let p := if first then p else p.skip
      match p.peek with
      | some .flowSequenceEnd => some ([], p.skip)
      | some .key => do
        let p := p.skip
        let (key, p) ←
          if p.isAt [.value, .comma, .flowSequenceEnd] then some (Node.empty, p.skip)
          else node fuel false false p
        let (value, p) ←
          if p.peek = some .value then
            orEmpty [.comma, .flowSequenceEnd] (node fuel false false) p.skip
          else some (Node.empty, p)
        let (rest, p) ← flowItems fuel false p
        return (.mapping Node.bare [(key, value)] :: rest, p)
      | _ => do
        let (item, p) ← node fuel false false p
        let (rest, p) ← flowItems fuel false p
        return (item :: rest, p)
    else none
def flowEntries : (fuel : Nat) → (first : Bool) → Parse (List (Node × Node))
  | 0, _, _ => none
  | fuel + 1, first, p =>
    if p.peek = some .flowMappingEnd then some ([], p.skip)
    else if first ∨ p.peek = some .comma then
      let p := if first then p else p.skip
      match p.peek with
      | some .flowMappingEnd => some ([], p.skip)
      | some .key => do
        let (key, p) ←
          orEmpty [.value, .comma, .flowMappingEnd] (node fuel false false) p.skip
        let (value, p) ←
          if p.peek = some .value then
            orEmpty [.comma, .flowMappingEnd] (node fuel false false) p.skip
          else some (Node.empty, p)
        let (rest, p) ← flowEntries fuel false p
        return ((key, value) :: rest, p)
      | _ => do
        let (key, p) ← node fuel false false p
        let (rest, p) ← flowEntries fuel false p
        return ((key, Node.empty) :: rest, p)
    else none
end

/-- The handles that need no directive, unless one redefines them. -/
def standardHandles : List (String × Tag) :=
  [("!", [0x21]), ("!!", "tag:yaml.org,2002:".toUTF8.toList)]

/-- The directives before a document: one version at most, which must be 1.1 or 1.2, and no
handle twice. -/
def directives (version : Bool) (handles : List (String × Tag)) :
    List Token → Option (List (String × Tag) × List Token)
  | .directive (.version major minor) :: rest =>
    if version ∨ major ≠ 1 ∨ (minor ≠ 1 ∧ minor ≠ 2) then none
    else directives true handles rest
  | .directive (.handle name expansion) :: rest =>
    if handles.any (·.1 == name) then none
    else directives version (handles ++ [(name, expansion)]) rest
  | rest => some (handles ++ standardHandles, rest)

def isDirective : Token → Bool
  | .directive _ => true
  | _ => false

def isOver (p : Parser) : Bool := p.tokens.all (· == .documentEnd)

def content (fuel : Nat) : Parse Node := fun p =>
  match p.peek with
  | none | some .documentStart | some .documentEnd | some (.directive _) => some (Node.empty, p)
  | _ => node fuel true false p

def document (tokens : List Token) : Option Document := do
  let fuel := 2 * tokens.length + 2
  match tokens with
  | [] => return ⟨none⟩
  | t :: _ =>
    let (root, p) ←
      if isDirective t ∨ t = .documentStart then do
        let (handles, rest) ← directives false [] tokens
        match rest with
        | .documentStart :: rest => content fuel ⟨rest, [], handles⟩
        | _ => none
      else node fuel true false ⟨tokens, [], standardHandles⟩
    if p.isOver then return ⟨some root⟩ else none

end Parser

def Document.ofText? (s : String) : Option Document := (Token.ofText? s).bind Parser.document

end EnvClient.Yaml

import EnvClient.Text.Hex
import EnvClient.Yaml.Place

/-! Anchors, tags and directives. -/
namespace EnvClient.Yaml.Token

/-- A handle and what follows it; an empty handle stands for nothing. Escapes may make the
rest of a tag out of any bytes. -/
structure TagName where
  handle : String
  rest : List UInt8
deriving DecidableEq, Repr

inductive Directive where
  | version (major minor : Nat)
  | handle (name : String) (expansion : List UInt8)
deriving DecidableEq, Repr

def takeWord (s : Input) : List Char × Input :=
  (s.takeChars isWord, s.dropWhile fun c => isWord c.char)

def endsName (s : Input) : Bool :=
  s.atGap || s.startsWith fun c => "?:,]\x7d%@`".toList.contains c

def anchorName (s : Input) : Option (String × Input) :=
  let (name, rest) := takeWord s
  if name.isEmpty || !endsName rest then none else some (String.ofList name, rest)

/-- Characters of a tag; those of flow collections only between angle brackets or in a directive. -/
def isTagChar (verbatim : Bool) (c : Char) : Bool :=
  isWord c || ";/?:@&=+$.!~*'()".toList.contains c ||
    (verbatim && ",[]".toList.contains c)

def escapeCount? (b : Nat) : Option Nat :=
  if b < 0x80 then some 1
  else if 0xC0 ≤ b ∧ b < 0xE0 then some 2
  else if 0xE0 ≤ b ∧ b < 0xF0 then some 3
  else if 0xF0 ≤ b ∧ b < 0xF8 then some 4
  else none

/-- The text of a tag, in which `more` escapes are due to complete a character. -/
def tagBytes (verbatim : Bool) (more : Nat) : Input → Option (List UInt8 × Input)
  | [] => if more = 0 then some ([], []) else none
  | c :: rest =>
    if c.char = '%' then
      match rest with
      | a :: b :: rest => do
        let byte := 16 * (← Text.hexValue? a.char) + (← Text.hexValue? b.char)
        let more ←
          if more = 0 then (escapeCount? byte).map (· - 1)
          else if 0x80 ≤ byte ∧ byte < 0xC0 then some (more - 1) else none
        let (bytes, rest) ← tagBytes verbatim more rest
        return (UInt8.ofNat byte :: bytes, rest)
      | _ => none
    else if more ≠ 0 then none
    else if isTagChar verbatim c.char then do
      let (bytes, rest) ← tagBytes verbatim 0 rest
      return (UInt8.ofNat c.char.toNat :: bytes, rest)
    else some ([], c :: rest)

def cutAtNull (bytes : List UInt8) : List UInt8 := bytes.takeWhile (· != 0)

def someTagBytes (verbatim : Bool) (s : Input) : Option (List UInt8 × Input) := do
  let (bytes, rest) ← tagBytes verbatim 0 s
  if bytes.isEmpty then none else return (cutAtNull bytes, rest)

/-- A handle: a mark, a word, and a second mark unless that is left out. -/
def tagHandle : Input → Option (List Char × Input)
  | c :: rest =>
    if c.char = '!' then
      let (word, rest) := takeWord rest
      match rest with
      | d :: rest' =>
        if d.char = '!' then some ('!' :: (word ++ ['!']), rest') else some ('!' :: word, d :: rest')
      | [] => some ('!' :: word, [])
    else none
  | [] => none

def isWholeHandle (handle : List Char) : Bool := 2 ≤ handle.length && handle.getLast? == some '!'

def tagBody (s : Input) : Option (TagName × Input) :=
  match s with
  | c :: d :: rest =>
    if d.char = '<' then do
      let (bytes, rest) ← someTagBytes true rest
      match rest with
      | e :: rest => if e.char = '>' then return (⟨"", bytes⟩, rest) else none
      | [] => none
    else shorthand (c :: d :: rest)
  | s => shorthand s
where
  shorthand (s : Input) : Option (TagName × Input) := do
    let (handle, rest) ← tagHandle s
    if isWholeHandle handle then
      let (bytes, rest) ← someTagBytes false rest
      return (⟨String.ofList handle, bytes⟩, rest)
    else
      let (bytes, rest) ← tagBytes false 0 rest
      let bytes := cutAtNull ((handle.drop 1).map (fun c => UInt8.ofNat c.toNat) ++ bytes)
      return (if bytes.isEmpty then ⟨"", [0x21]⟩ else ⟨"!", bytes⟩, rest)

def tagName (flow : Bool) (s : Input) : Option (TagName × Input) := do
  let (tag, rest) ← tagBody s
  if rest.atGap || (flow && rest.startsWith (· == ',')) then return (tag, rest) else none

def versionNumber (s : Input) : Option (Nat × Input) :=
  let ds := s.takeChars Char.isDigit
  if ds.isEmpty || 9 < ds.length then none
  else some (ds.foldl (fun n c => 10 * n + (c.toNat - '0'.toNat)) 0,
    s.dropWhile fun c => c.char.isDigit)

def versionDirective (s : Input) : Option (Directive × Input) := do
  let (major, rest) ← versionNumber s.dropBlanks
  match rest with
  | c :: rest =>
    if c.char = '.' then
      let (minor, rest) ← versionNumber rest
      return (.version major minor, rest)
    else none
  | [] => none

def handleDirective (s : Input) : Option (Directive × Input) := do
  let (handle, rest) ← tagHandle s.dropBlanks
  if handle = ['!'] || isWholeHandle handle then
    if rest.startsWith isBlank then
      let (bytes, rest) ← someTagBytes true rest.dropBlanks
      if rest.atGap then return (.handle (String.ofList handle) bytes, rest) else none
    else none
  else none

def directiveLine (s : Input) : Option (Directive × Input) := do
  let (name, rest) := takeWord s
  if !rest.atGap then none
  else
    let (directive, rest) ←
      if name = "YAML".toList then versionDirective rest
      else if name = "TAG".toList then handleDirective rest
      else none
    return (directive, ← rest.endLine?)

end EnvClient.Yaml.Token

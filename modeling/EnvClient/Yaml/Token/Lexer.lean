import EnvClient.Yaml.Token
import EnvClient.Yaml.Token.Block
import EnvClient.Yaml.Token.Scalar

/-! From a text to its words. Whether a scalar or a collection is a key shows only at the
colon after it, so the lexer remembers where a key may have started and puts the word for it
there when the colon comes. -/
namespace EnvClient.Yaml

/-- A place where a key may have started, with the number of words before it. A key that is
required must turn out to be one. -/
structure KeyStart where
  number : Nat
  required : Bool
  place : Place
deriving DecidableEq, Repr

/-- The words so far, the last one first; the columns of the open block collections, the
innermost first; and the key starts of the innermost flow collection and of those around it. -/
structure Lexer where
  rest : Input
  tokens : List Token
  columns : List Nat
  start : Option KeyStart
  outer : List (Option KeyStart)
  keyAllowed : Bool
deriving Repr

namespace Lexer

def ofInput (s : Input) : Lexer := ⟨s, [], [], none, [], true⟩

def inFlow (l : Lexer) : Bool := !l.outer.isEmpty

def emit (t : Token) (l : Lexer) : Lexer := { l with tokens := t :: l.tokens }

def insertAt (number : Nat) (t : Token) (l : Lexer) : Lexer :=
  let later := l.tokens.length - number
  { l with tokens := l.tokens.take later ++ t :: l.tokens.drop later }

/-- Skips blanks, comments and breaks up to the next word. A tab is a blank only where no key
may start, and a break outside of flow collections allows a key. A byte order mark may start
any line. -/
def skipGap (flow : Bool) : (keyAllowed inComment : Bool) → Input → Input × Bool
  | keyAllowed, _, [] => ([], keyAllowed)
  | keyAllowed, inComment, c :: rest =>
    if isBreak c.char then skipGap flow (keyAllowed || !flow) false rest
    else if inComment then skipGap flow keyAllowed true rest
    else if c.char = ' ' then skipGap flow keyAllowed false rest
    else if c.char = '\t' ∧ (flow ∨ !keyAllowed) then skipGap flow keyAllowed false rest
    else if c.char = '\ufeff' ∧ c.place.column = 0 then skipGap flow keyAllowed false rest
    else if c.char = '#' then skipGap flow keyAllowed true rest
    else (c :: rest, keyAllowed)

def skip (l : Lexer) : Lexer :=
  let (rest, keyAllowed) := skipGap l.inFlow l.keyAllowed false l.rest
  { l with rest, keyAllowed }

/-- A key ends on the line on which it starts, and within 1024 bytes. -/
def isStale (p : Place) (k : KeyStart) : Bool :=
  k.place.line < p.line || k.place.offset + 1024 < p.offset

def expireStart (p : Place) : Option KeyStart → Option (Option KeyStart)
  | none => some none
  | some k => if isStale p k then (if k.required then none else some none) else some (some k)

def expire (p : Place) (l : Lexer) : Option Lexer := do
  return { l with start := ← expireStart p l.start, outer := ← l.outer.mapM (expireStart p) }

def dropStart (l : Lexer) : Option Lexer :=
  if l.start.any (·.required) then none else some { l with start := none }

/-- Where a key may start, it must if it stands at the column of the innermost collection. -/
def saveStart (p : Place) (l : Lexer) : Option Lexer :=
  if l.keyAllowed then do
    let required := !l.inFlow && l.columns.head? == some p.column
    return { ← l.dropStart with start := some ⟨l.tokens.length, required, p⟩ }
  else some l

def indent (column number : Nat) (opening : Token) (l : Lexer) : Lexer :=
  if l.inFlow || l.columns.head?.any (column ≤ ·) then l
  else { l with columns := column :: l.columns }.insertAt number opening

def closeColumns (keep : Nat → Bool) : List Nat → List Token → List Nat × List Token
  | [], tokens => ([], tokens)
  | column :: columns, tokens =>
    if keep column then (column :: columns, tokens)
    else closeColumns keep columns (.blockEnd :: tokens)

def dedent (keep : Nat → Bool) (l : Lexer) : Lexer :=
  if l.inFlow then l
  else
    let (columns, tokens) := closeColumns keep l.columns l.tokens
    { l with columns, tokens }

def closeAll (l : Lexer) : Lexer := l.dedent fun _ => false

def allowKey (allowed : Bool) (l : Lexer) : Lexer := { l with keyAllowed := allowed }

def moveTo (rest : Input) (l : Lexer) : Lexer := { l with rest }

def directive (rest : Input) (l : Lexer) : Option Lexer := do
  let l ← l.closeAll.dropStart
  let (d, rest) ← Token.directiveLine rest
  return (l.allowKey false).moveTo rest |>.emit (.directive d)

def documentMark (t : Token) (rest : Input) (l : Lexer) : Option Lexer := do
  let l ← l.closeAll.dropStart
  return (l.allowKey false).moveTo (rest.drop 2) |>.emit t

def openFlow (t : Token) (p : Place) (rest : Input) (l : Lexer) : Option Lexer := do
  let l ← l.saveStart p
  return { l with start := none, outer := l.start :: l.outer, keyAllowed := true, rest }.emit t

def closeFlow (t : Token) (rest : Input) (l : Lexer) : Option Lexer := do
  let l ← l.dropStart
  let (start, outer) := match l.outer with
    | [] => (l.start, [])
    | start :: outer => (start, outer)
  return { l with start, outer, keyAllowed := false, rest }.emit t

def comma (rest : Input) (l : Lexer) : Option Lexer := do
  let l ← l.dropStart
  return (l.allowKey true).moveTo rest |>.emit .comma

def opens (column : Nat) (opening : Token) (l : Lexer) : Option Lexer :=
  if l.inFlow then some l
  else if l.keyAllowed then some (l.indent column l.tokens.length opening)
  else none

def entry (p : Place) (rest : Input) (l : Lexer) : Option Lexer := do
  let l ← (← l.opens p.column .blockSequence).dropStart
  return (l.allowKey true).moveTo rest |>.emit .entry

def key (p : Place) (rest : Input) (l : Lexer) : Option Lexer := do
  let l ← (← l.opens p.column .blockMapping).dropStart
  return (l.allowKey !l.inFlow).moveTo rest |>.emit .key

def value (p : Place) (rest : Input) (l : Lexer) : Option Lexer := do
  match l.start with
  | some k =>
    let l := (l.insertAt k.number .key).indent k.place.column k.number .blockMapping
    return { l with start := none, keyAllowed := false, rest }.emit .value
  | none =>
    let l ← l.opens p.column .blockMapping
    return (l.allowKey !l.inFlow).moveTo rest |>.emit .value

def properties (p : Place) (read : Input → Option (Token × Input)) (rest : Input) (l : Lexer) :
    Option Lexer := do
  let l ← l.saveStart p
  let (t, rest) ← read rest
  return (l.allowKey false).moveTo rest |>.emit t

def blockScalar (folded : Bool) (rest : Input) (l : Lexer) : Option Lexer := do
  let l ← l.dropStart
  let (text, rest) ← Token.blockScalar folded l.columns.head? rest
  return (l.allowKey true).moveTo rest |>.emit (.scalar false (String.ofList text))

def quoted (read : Input → Option (List Char × Input)) : Input → Option (Token × Input) :=
  fun s => (read s).map fun (text, rest) => (.scalar false (String.ofList text), rest)

def plainScalar (p : Place) (s : Input) (l : Lexer) : Option Lexer := do
  let l ← l.saveStart p
  let margin := match l.columns with
    | [] => 0
    | column :: _ => column + 1
  let (text, broken, rest) ← Token.plainText l.inFlow margin .none s
  return (l.allowKey broken).moveTo rest |>.emit (.scalar true (String.ofList text))

/-- Characters with which no plain scalar starts; three of them may if no gap follows. -/
def isMark (c : Char) : Bool := isBlank c || "-?:,[]\x7b\x7d#&*!|>'\"%@`".toList.contains c

/-- The next word. No word starts with a tab where a key may start. -/
def next (c : Placed) (rest : Input) (l : Lexer) : Option Lexer :=
  let p := c.place
  if p.column = 0 ∧ c.char = '%' then l.directive rest
  else if Input.startsMark '-' (c :: rest) then l.documentMark .documentStart rest
  else if Input.startsMark '.' (c :: rest) then l.documentMark .documentEnd rest
  else if c.char = '[' then l.openFlow .flowSequence p rest
  else if c.char = '{' then l.openFlow .flowMapping p rest
  else if c.char = ']' then l.closeFlow .flowSequenceEnd rest
  else if c.char = '}' then l.closeFlow .flowMappingEnd rest
  else if c.char = ',' then l.comma rest
  else if c.char = '-' ∧ rest.atGap then l.entry p rest
  else if c.char = '?' ∧ (l.inFlow ∨ rest.atGap) then l.key p rest
  else if c.char = ':' ∧ (l.inFlow ∨ rest.atGap) then l.value p rest
  else if c.char = '*' then
    l.properties p (fun s => (Token.anchorName s).map fun (n, r) => (.reference n, r)) rest
  else if c.char = '&' then
    l.properties p (fun s => (Token.anchorName s).map fun (n, r) => (.anchor n, r)) rest
  else if c.char = '!' then
    l.properties p (fun s => (Token.tagName l.inFlow s).map fun (t, r) => (.tag t, r)) (c :: rest)
  else if c.char = '|' ∧ !l.inFlow then l.blockScalar false rest
  else if c.char = '>' ∧ !l.inFlow then l.blockScalar true rest
  else if c.char = '\'' then l.properties p (quoted (Token.singleText .none)) rest
  else if c.char = '"' then l.properties p (quoted (Token.doubleText (.text .none))) rest
  else if !isMark c.char ∨ c.char = '-' ∨ (!l.inFlow ∧ (c.char = '?' ∨ c.char = ':')) then
    l.plainScalar p (c :: rest)
  else none

def finish (l : Lexer) : Option (List Token) :=
  l.closeAll.dropStart.map fun l => l.tokens.reverse

/-- Every word but the last takes at least one character. -/
def run : Nat → Lexer → Option (List Token)
  | 0, _ => none
  | fuel + 1, l =>
    let l := l.skip
    match l.rest with
    | [] => l.finish
    | c :: rest => do
      let l := (← l.expire c.place).dedent (· ≤ c.place.column)
      run fuel (← l.next c rest)

end Lexer

def Token.ofText? (s : String) : Option (List Token) :=
  let chars := s.toList
  if chars.all isAllowed then (Lexer.ofInput (Input.ofText chars)).run (chars.length + 1) else none

end EnvClient.Yaml

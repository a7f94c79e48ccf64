import EnvClient.Yaml.Char

/-! Characters with their places in a text. A carriage return and the line feed after it are
one break, and stand as a line feed. -/
namespace EnvClient.Yaml

structure Place where
  offset : Nat
  line : Nat
  column : Nat
deriving DecidableEq, Repr

structure Placed where
  char : Char
  place : Place
deriving DecidableEq, Repr

abbrev Input := List Placed

namespace Place

def start : Place := ⟨0, 0, 0⟩

/-- The place after a carriage return that is one break with the line feed at this place. -/
def skipReturn (p : Place) : Place := { p with offset := p.offset + 1 }

def after (p : Place) (c : Char) : Place :=
  let offset := p.offset + c.utf8Size
  if isBreak c then ⟨offset, p.line + 1, 0⟩ else ⟨offset, p.line, p.column + 1⟩

end Place

namespace Input

def ofChars (p : Place) : List Char → Input
  | [] => []
  | c :: rest =>
    if c = '\r' ∧ rest.head? = some '\n' then ofChars p.skipReturn rest
    else ⟨c, p⟩ :: ofChars (p.after c) rest

def ofText (s : List Char) : Input := ofChars .start s

def chars (s : Input) : List Char := s.map (·.char)

def takeChars (p : Char → Bool) (s : Input) : List Char := s.chars.takeWhile p

def startsWith (p : Char → Bool) : Input → Bool
  | [] => false
  | s :: _ => p s.char

def atGap (s : Input) : Bool := startsBlank s.chars

def atLineEnd (s : Input) : Bool := s.isEmpty || s.startsWith isBreak

def dropBlanks (s : Input) : Input := s.dropWhile fun s => isBlank s.char

def dropLine (s : Input) : Input := s.dropWhile fun s => !isBreak s.char

/-- What follows the blanks and the comment at the end of a line; none if anything else does. -/
def endLine? (s : Input) : Option Input :=
  let s := s.dropBlanks
  let s := if s.startsWith (· == '#') then s.dropLine else s
  if s.atLineEnd then some (s.drop 1) else none

/-- Three equal characters at the start of a line with a gap after them. -/
def startsMark (c : Char) : Input → Bool
  | a :: b :: d :: rest =>
    a.place.column == 0 && a.char == c && b.char == c && d.char == c && atGap rest
  | _ => false

def startsDocumentMark (s : Input) : Bool := startsMark '-' s || startsMark '.' s

end Input
end EnvClient.Yaml

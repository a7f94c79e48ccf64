import EnvClient.Yaml.Char
import EnvClient.Yaml.Scalar

/-! The form in which a text is written as a scalar: the plainest that reads back as that text. -/
namespace EnvClient.Yaml

inductive Style where
  | plain
  | single
  | double
  | literal
deriving DecidableEq, Repr

namespace Style

def anyPair (p q : Char → Bool) : List Char → Bool
  | c :: d :: rest => (p c && q d) || anyPair p q (d :: rest)
  | _ => false

def isSpace (c : Char) : Bool := c == ' '

def isMultiline (s : List Char) : Bool := s.any isBreak

def hasSpecial (s : List Char) : Bool := s.any (!isPrintable ·)

def startsWith (p : Char → Bool) (s : List Char) : Bool := s.head?.any p

def endsWith (p : Char → Bool) (s : List Char) : Bool := s.getLast?.any p

def spaceThenBreak (s : List Char) : Bool := anyPair isSpace isBreak s

def breakThenSpace (s : List Char) : Bool := anyPair isBreak isSpace s

def isIndicator (c : Char) : Bool := "#,[]\x7b\x7d&*!|>'\"%@`".toList.contains c

def isGap (c : Char) : Bool := isSpaceOrBreak c || c == '\x00'

def startsGap : List Char → Bool
  | [] => true
  | c :: _ => isGap c

def innerIndicator : (afterGap : Bool) → List Char → Bool
  | _, [] => false
  | afterGap, c :: rest =>
    (c == ':' && startsGap rest) || (c == '#' && afterGap) || innerIndicator (isGap c) rest

/-- Whether a plain scalar would be taken for something else in block context. -/
def hasIndicator : List Char → Bool
  | [] => false
  | c :: rest =>
    ['-', '-', '-'].isPrefixOf (c :: rest) || ['.', '.', '.'].isPrefixOf (c :: rest) ||
      isIndicator c || ((c == '?' || c == ':' || c == '-') && startsGap rest) ||
      innerIndicator (isGap c) rest

def plainAllowed (s : List Char) : Bool :=
  !(startsWith isSpace s || endsWith isSpace s || isMultiline s || hasSpecial s || hasIndicator s)

def singleAllowed (s : List Char) : Bool :=
  !(breakThenSpace s || spaceThenBreak s || hasSpecial s)

def literalAllowed (s : List Char) : Bool :=
  !(endsWith isSpace s || spaceThenBreak s || hasSpecial s)

/-- A text with a line feed is a block, one that would read as something else is quoted. -/
def wanted (s : List Char) : Style :=
  if s.contains '\n' then literal
  else if Scalar.meaning s = .text ∧ !Scalar.isPadded s then plain
  else single

/-- A key on the line of its value is never a block. -/
def choose (inline : Bool) (s : List Char) : Style :=
  match wanted s with
  | literal => if literalAllowed s && !inline then literal else double
  | plain => if plainAllowed s then plain else if singleAllowed s then single else double
  | _ => if singleAllowed s then single else double

def isInlineKey (s : String) : Bool := !isMultiline s.toList && s.utf8ByteSize ≤ 128

end Style
end EnvClient.Yaml

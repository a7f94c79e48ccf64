import EnvClient.Text.Hex
import EnvClient.Yaml.Token.Gap

/-! Texts of scalars on the line: plain ones, and those in single or double quotes. Each reader
gives the text and what follows it, or none where the text is not well formed. -/
namespace EnvClient.Yaml.Token

def isFlowMark (c : Char) : Bool := ",[]\x7b\x7d".toList.contains c

def endsPlain (flow : Bool) (margin : Nat) (gap : Gap) (c : Placed) (rest : Input) : Bool :=
  Input.startsDocumentMark (c :: rest) || (c.char == '#' && !gap.isNone) ||
    (gap.isBroken && !flow && c.place.column < margin) ||
    (c.char == ':' && rest.atGap) || (flow && isFlowMark c.char)

/-- In a flow collection a colon before one of its marks is refused. -/
def isStrayColon (flow : Bool) (c : Placed) (rest : Input) : Bool :=
  flow && c.char == ':' && rest.startsWith fun d => isFlowMark d || d == '?'

/-- A plain scalar, whether a break was passed after it, and the rest. Lines after the first
stand at the margin or right of it. -/
def plainText (flow : Bool) (margin : Nat) (gap : Gap) : Input → Option (List Char × Bool × Input)
  | [] => some ([], gap.isBroken, [])
  | c :: rest =>
    if isBreak c.char then plainText flow margin (gap.addBreak c.char) rest
    else if isBlank c.char then
      if gap.isBroken && c.char == '\t' && c.place.column < margin then none
      else plainText flow margin (gap.addBlank c.char) rest
    else if endsPlain flow margin gap c rest then some ([], gap.isBroken, c :: rest)
    else if isStrayColon flow c rest then none
    else (plainText flow margin .none rest).map fun (text, broken, rest) =>
      (gap.text ++ c.char :: text, broken, rest)

def prepend (cs : List Char) (r : Option (List Char × Input)) : Option (List Char × Input) :=
  r.map fun (text, rest) => (cs ++ text, rest)

def singleText (gap : Gap) : Input → Option (List Char × Input)
  | [] => none
  | c :: rest =>
    if isBreak c.char then singleText (gap.addBreak c.char) rest
    else if isBlank c.char then singleText (gap.addBlank c.char) rest
    else if Input.startsDocumentMark (c :: rest) then none
    else if c.char = '\'' then
      match rest with
      | [] => some (gap.text, [])
      | d :: rest' =>
        if d.char = '\'' then prepend (gap.text ++ ['\'']) (singleText .none rest')
        else some (gap.text, d :: rest')
    else prepend (gap.text ++ [c.char]) (singleText .none rest)

def unescape? (c : Char) : Option Char :=
  match c with
  | '0' => some '\x00' | 'a' => some '\x07' | 'b' => some '\x08' | 't' => some '\t'
  | '\t' => some '\t' | 'n' => some '\n' | 'v' => some '\x0b' | 'f' => some '\x0c'
  | 'r' => some '\r' | 'e' => some '\x1b' | ' ' => some ' ' | '"' => some '"'
  | '/' => some '/' | '\\' => some '\\' | 'N' => some '\u0085' | '_' => some '\u00a0'
  | 'L' => some '\u2028' | 'P' => some '\u2029'
  | _ => none

def hexLength? (c : Char) : Option Nat :=
  match c with
  | 'x' => some 2 | 'u' => some 4 | 'U' => some 8
  | _ => none

def ofCode? (n : Nat) : Option Char := if n.isValidChar then some (Char.ofNat n) else none

/-- Where a reader of a double-quoted scalar stands: in its text, after a backslash, or before
that many more digits of a code point. -/
inductive Quoting where
  | text (gap : Gap)
  | escape
  | hex (more value : Nat)
deriving DecidableEq, Repr

def doubleText : Quoting → Input → Option (List Char × Input)
  | _, [] => none
  | .text gap, c :: rest =>
    if isBreak c.char then doubleText (.text (gap.addBreak c.char)) rest
    else if isBlank c.char then doubleText (.text (gap.addBlank c.char)) rest
    else if Input.startsDocumentMark (c :: rest) then none
    else if c.char = '"' then some (gap.text, rest)
    else if c.char = '\\' then prepend gap.text (doubleText .escape rest)
    else prepend (gap.text ++ [c.char]) (doubleText (.text .none) rest)
  | .escape, c :: rest =>
    if isBreak c.char then doubleText (.text .escaped) rest
    else match hexLength? c.char with
      | some n => doubleText (.hex (n - 1) 0) rest
      | none =>
        match unescape? c.char with
        | some e => prepend [e] (doubleText (.text .none) rest)
        | none => none
  | .hex more value, c :: rest =>
    match Text.hexValue? c.char with
    | none => none
    | some d =>
      let value := 16 * value + d
      match more with
      | more + 1 => doubleText (.hex more value) rest
      | 0 =>
        match ofCode? value with
        | some e => prepend [e] (doubleText (.text .none) rest)
        | none => none

end EnvClient.Yaml.Token

import EnvClient.Decimal
import EnvClient.Json.Printer
import EnvClient.Text.Hex
import EnvClient.Yaml.Style

/-! YAML texts in block style. Mappings are indented by two spaces, sequences in mappings are
not, and every entry ends its own line. -/
namespace EnvClient.Yaml

def pad (indent : Nat) : List Char := List.replicate indent ' '

def shortEscape? (c : Char) : Option Char :=
  match c.toNat with
  | 0x00 => some '0' | 0x07 => some 'a' | 0x08 => some 'b' | 0x09 => some 't'
  | 0x0A => some 'n' | 0x0B => some 'v' | 0x0C => some 'f' | 0x0D => some 'r'
  | 0x1B => some 'e' | 0x22 => some '"' | 0x5C => some '\\' | 0x85 => some 'N'
  | 0x2028 => some 'L' | 0x2029 => some 'P'
  | _ => none

def doubleChar (c : Char) : List Char :=
  if isPrintable c && !isBreak c && c != '"' && c != '\\' then [c]
  else match shortEscape? c with
    | some e => ['\\', e]
    | none =>
      if c.toNat ≤ 0xFF then '\\' :: 'x' :: Text.upperHex 2 c.toNat
      else if c.toNat ≤ 0xFFFF then '\\' :: 'u' :: Text.upperHex 4 c.toNat
      else '\\' :: 'U' :: Text.upperHex 8 c.toNat

def doubleQuoted (s : List Char) : List Char := '"' :: (s.flatMap doubleChar ++ ['"'])

/-- A quote is written twice; the line after a break is indented. -/
def singleBody (indent : Nat) : (afterBreak : Bool) → List Char → List Char
  | afterBreak, [] => if afterBreak then pad indent else []
  | afterBreak, c :: rest =>
    if isBreak c then c :: singleBody indent true rest
    else
      (if afterBreak then pad indent else []) ++
        (if c = '\'' then ['\'', '\''] else [c]) ++ singleBody indent false rest

def singleQuoted (indent : Nat) (s : List Char) : List Char :=
  '\'' :: (singleBody indent false s ++ ['\''])

def literalBody (indent : Nat) : (afterBreak : Bool) → List Char → List Char
  | _, [] => []
  | afterBreak, c :: rest =>
    if isBreak c then c :: literalBody indent true rest
    else (if afterBreak then pad indent else []) ++ c :: literalBody indent false rest

/-- The indentation is given when the text itself starts with a space or a break. -/
def indentHint (s : List Char) : List Char :=
  if Style.startsWith (fun c => Style.isSpace c || isBreak c) s then ['2'] else []

/-- Whether breaks at the end are dropped, kept, or one of them is. -/
def chompHint (s : List Char) : List Char :=
  match s.reverse with
  | [] => ['-']
  | [c] => if isBreak c then ['+'] else ['-']
  | c :: d :: _ => if isBreak c then (if isBreak d then ['+'] else []) else ['-']

def literalBlock (indent : Nat) (s : List Char) : List Char :=
  '|' :: (indentHint s ++ chompHint s ++ '\n' :: literalBody indent true s)

def styled (style : Style) (indent : Nat) (s : List Char) : List Char :=
  match style with
  | .plain => s
  | .single => singleQuoted indent s
  | .double => doubleQuoted s
  | .literal => literalBlock indent s

/-- A text as a scalar that ends its line; a block that ends with a break has done so. -/
def textLine (indent : Nat) (s : String) : List Char :=
  let chars := s.toList
  let style := Style.choose false chars
  styled style indent chars ++
    (if style = .literal ∧ Style.endsWith isBreak chars then [] else ['\n'])

def inlineKey (s : String) : List Char :=
  styled (Style.choose true s.toList) 0 s.toList

def numberChars : Number → List Char
  | .float value => DecimalStyle.yaml.render value
  | n => n.chars

def leafLine (indent : Nat) : Json → Option (List Char)
  | .null => some "null\n".toList
  | .bool value => some ((if value then "true\n" else "false\n").toList)
  | .number n => some (numberChars n ++ ['\n'])
  | .string s => some (textLine indent s)
  | .array [] => some "[]\n".toList
  | .object [] => some "\x7b\x7d\n".toList
  | _ => none

mutual
/-- The entries of a value, each after the indentation, which the first one may already have. -/
def block (indent : Nat) (indented : Bool) : Json → List Char
  | .array items => blockItems indent indented items
  | .object members => blockMembers indent indented members
  | leaf => (leafLine indent leaf).getD []
def blockItems (indent : Nat) (indented : Bool) : List Json → List Char
  | [] => []
  | item :: rest =>
    (if indented then [] else pad indent) ++ '-' :: ' ' :: (besideMark indent item) ++
      blockItems indent false rest
def blockMembers (indent : Nat) (indented : Bool) : List (String × Json) → List Char
  | [] => []
  | (name, value) :: rest =>
    (if indented then [] else pad indent) ++
      (if Style.isInlineKey name then inlineKey name ++ ':' :: besideKey indent value
      else '?' :: ' ' :: (textLine (indent + 2) name ++ pad indent ++
        ':' :: ' ' :: besideMark indent value)) ++
      blockMembers indent false rest
def besideMark (indent : Nat) : Json → List Char
  | .array (item :: rest) =>
    '-' :: ' ' :: (besideMark (indent + 2) item) ++ blockItems (indent + 2) false rest
  | .object ((name, value) :: rest) => blockMembers (indent + 2) true ((name, value) :: rest)
  | leaf => (leafLine (indent + 2) leaf).getD []
def besideKey (indent : Nat) : Json → List Char
  | .array (item :: rest) => '\n' :: blockItems indent false (item :: rest)
  | .object ((name, value) :: rest) => '\n' :: blockMembers (indent + 2) false ((name, value) :: rest)
  | leaf => ' ' :: (leafLine (indent + 2) leaf).getD []
end

def print (j : Json) : String :=
  String.ofList (match leafLine 2 j with
    | some line => line
    | none => block 0 true j)

end EnvClient.Yaml

import EnvClient.Decimal
import EnvClient.Json.Basic

/-! JSON texts: compact, and indented by two spaces. Members are written in the order in
which the value holds them. -/
namespace EnvClient

def Number.chars : Number → List Char
  | .int value _ =>
    if value < 0 then '-' :: Nat.toDigits 10 value.natAbs else Nat.toDigits 10 value.natAbs
  | .float value => DecimalStyle.json.render value

def Number.text (n : Number) : String := String.ofList n.chars

namespace Json

def hexDigit (n : Nat) : Char := (Nat.toDigits 16 n).headD '0'

def escapeChar (c : Char) : List Char :=
  if c = '"' then ['\\', '"']
  else if c = '\\' then ['\\', '\\']
  else if c = '\x08' then ['\\', 'b']
  else if c = '\t' then ['\\', 't']
  else if c = '\n' then ['\\', 'n']
  else if c = '\x0c' then ['\\', 'f']
  else if c = '\r' then ['\\', 'r']
  else if c < ' ' then ['\\', 'u', '0', '0', hexDigit (c.toNat / 16), hexDigit (c.toNat % 16)]
  else [c]

def quoteChars (s : String) : List Char := '"' :: (s.toList.flatMap escapeChar ++ ['"'])

def quote (s : String) : String := String.ofList (quoteChars s)

mutual
def chars : Json → List Char
  | null => "null".toList
  | bool true => "true".toList
  | bool false => "false".toList
  | number n => n.chars
  | string s => quoteChars s
  | array items => '[' :: (itemChars items ++ [']'])
  | object members => '{' :: (memberChars members ++ ['}'])
def itemChars : List Json → List Char
  | [] => []
  | [item] => item.chars
  | item :: rest => item.chars ++ ',' :: itemChars rest
def memberChars : List (String × Json) → List Char
  | [] => []
  | [(name, value)] => quoteChars name ++ ':' :: value.chars
  | (name, value) :: rest => quoteChars name ++ ':' :: (value.chars ++ ',' :: memberChars rest)
end

def compact (j : Json) : String := String.ofList j.chars

def newline (depth : Nat) : List Char := '\n' :: List.replicate (2 * depth) ' '

mutual
def prettyChars (depth : Nat) : Json → List Char
  | array [] => "[]".toList
  | array (item :: rest) =>
    '[' :: (newline (depth + 1) ++ item.prettyChars (depth + 1) ++
      prettyItems depth rest ++ newline depth ++ [']'])
  | object [] => "\x7b\x7d".toList
  | object ((name, value) :: rest) =>
    '{' :: (newline (depth + 1) ++ quoteChars name ++ ": ".toList ++
      value.prettyChars (depth + 1) ++ prettyMembers depth rest ++ newline depth ++ ['}'])
  | scalar => scalar.chars
def prettyItems (depth : Nat) : List Json → List Char
  | [] => []
  | item :: rest =>
    ',' :: (newline (depth + 1) ++ item.prettyChars (depth + 1) ++ prettyItems depth rest)
def prettyMembers (depth : Nat) : List (String × Json) → List Char
  | [] => []
  | (name, value) :: rest =>
    ',' :: (newline (depth + 1) ++ quoteChars name ++ ": ".toList ++
      value.prettyChars (depth + 1) ++ prettyMembers depth rest)
end

/-- One member or item a line, indented by two spaces; empty ones stay on the line. -/
def pretty (j : Json) : String := String.ofList (j.prettyChars 0)

end Json
end EnvClient

import EnvClient.Text.Hex
import EnvClient.Text.Property

/-! Texts quoted inside messages: quotes and backslashes are escaped, and characters that
would not show or would join the one before them are given by code point. -/
namespace EnvClient.Text

/-- The halfwidth voicing marks are letters, the only ones among the extending characters, and
take a place of their own. -/
def isVoicingMark (c : Char) : Bool := c == '\uff9e' || c == '\uff9f'

def joinsPrevious (c : Char) : Bool := inRanges extending c && !isVoicingMark c

def escapeForMessage (c : Char) : List Char :=
  if c = '\x00' then ['\\', '0']
  else if c = '\t' then ['\\', 't']
  else if c = '\r' then ['\\', 'r']
  else if c = '\n' then ['\\', 'n']
  else if c = '\\' then ['\\', '\\']
  else if c = '"' then ['\\', '"']
  else if c < ' ' ∨ ('~' < c ∧ (joinsPrevious c ∨ inRanges unprintable c)) then
    ['\\', 'u', '{'] ++ hex c.toNat ++ ['}']
  else [c]

def quoteForMessage (s : String) : String :=
  String.ofList ('"' :: (s.toList.flatMap escapeForMessage ++ ['"']))

end EnvClient.Text

import EnvClient.Url.Percent

/-! Names and values in queries: a space is a plus sign, and all but letters, digits and four
marks is escaped. -/
namespace EnvClient.Url

def isFormPlain (b : UInt8) : Bool :=
  (0x30 ≤ b && b ≤ 0x39) || (0x41 ≤ b && b ≤ 0x5A) || (0x61 ≤ b && b ≤ 0x7A) || isAnyOf "*-._" b

def formByte (b : UInt8) : List Char :=
  if b = 0x20 then ['+'] else if isFormPlain b then [Char.ofNat b.toNat] else escapeByte b

def formEncode (s : String) : List Char := (Text.Utf8.encode s).flatMap formByte

def formPair (name value : String) : List Char := formEncode name ++ '=' :: formEncode value

def formDecode? (s : List Char) : Option String :=
  Text.Utf8.text? (unescape (s.map fun c => if c = '+' then ' ' else c))

end EnvClient.Url

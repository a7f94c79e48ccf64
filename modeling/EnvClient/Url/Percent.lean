import EnvClient.Text.Hex
import EnvClient.Text.Utf8

/-! Escapes of bytes in URLs: a percent sign and two hexadecimal digits. -/
namespace EnvClient.Url

def escapeByte (b : UInt8) : List Char := '%' :: Text.upperHex 2 b.toNat

def isControl (b : UInt8) : Bool := b < 0x20 || 0x7F ≤ b

def isAnyOf (chars : String) (b : UInt8) : Bool :=
  chars.toList.any fun c => c.toNat == b.toNat

def escape (special : UInt8 → Bool) (s : String) : List Char :=
  (Text.Utf8.encode s).flatMap fun b =>
    if special b then escapeByte b else [Char.ofNat b.toNat]

def isSegmentSpecial (b : UInt8) : Bool := isControl b || isAnyOf " \"#%/<>?`\x7b\x7d" b

def encodeSegment (s : String) : List Char := escape isSegmentSpecial s

/-- The bytes of an escaped text; a percent sign without two digits stands for itself. -/
def unescape : List Char → List UInt8
  | [] => []
  | '%' :: a :: b :: rest =>
    match Text.hexValue? a, Text.hexValue? b with
    | some high, some low => UInt8.ofNat (16 * high + low) :: unescape rest
    | _, _ => Text.Utf8.encode "%" ++ unescape (a :: b :: rest)
  | c :: rest => Text.Utf8.encode (String.singleton c) ++ unescape rest

def decodeSegment? (s : List Char) : Option String := Text.Utf8.text? (unescape s)

end EnvClient.Url

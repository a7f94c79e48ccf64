/-! UTF-8. Bytes are read as characters and as gaps where they are no characters; each longest
start of an encoding that is not completed is one gap. -/
namespace EnvClient.Text.Utf8

/-- How much of a character is known: what its next byte may be, and how many bytes follow that one. -/
inductive State where
  | start
  | inside (value : Nat) (least most : Nat) (more : Nat)
deriving DecidableEq, Repr

/-- A byte that starts a character: the character itself, a state inside it, or neither. -/
def lead (b : Nat) : Option (Option Char × State) :=
  if b < 0x80 then some (some (Char.ofNat b), .start)
  else if 0xC2 ≤ b ∧ b ≤ 0xDF then some (none, .inside (b - 0xC0) 0x80 0xBF 0)
  else if b = 0xE0 then some (none, .inside 0 0xA0 0xBF 1)
  else if b = 0xED then some (none, .inside 0xD 0x80 0x9F 1)
  else if 0xE1 ≤ b ∧ b ≤ 0xEF then some (none, .inside (b - 0xE0) 0x80 0xBF 1)
  else if b = 0xF0 then some (none, .inside 0 0x90 0xBF 2)
  else if 0xF1 ≤ b ∧ b ≤ 0xF3 then some (none, .inside (b - 0xF0) 0x80 0xBF 2)
  else if b = 0xF4 then some (none, .inside 4 0x80 0x8F 2)
  else none

def push (b : Nat) : List (Option Char) × State :=
  match lead b with
  | some (some c, st) => ([some c], st)
  | some (none, st) => ([], st)
  | none => ([none], .start)

/-- A byte that does not continue a character closes the gap before it and starts anew. -/
def step : State → Nat → List (Option Char) × State
  | .start, b => push b
  | .inside value least most more, b =>
    if least ≤ b ∧ b ≤ most then
      let value := value * 64 + (b - 0x80)
      match more with
      | 0 => ([some (Char.ofNat value)], .start)
      | more + 1 => ([], .inside value 0x80 0xBF more)
    else
      let (out, st) := push b
      (none :: out, st)

def decodeFrom (st : State) : List UInt8 → List (Option Char)
  | [] => if st = .start then [] else [none]
  | b :: rest =>
    let (out, st) := step st b.toNat
    out ++ decodeFrom st rest

def decode (bytes : List UInt8) : List (Option Char) := decodeFrom .start bytes

def text? (bytes : List UInt8) : Option String :=
  ((decode bytes).mapM id).map String.ofList

def replacement : Char := '\ufffd'

def byteOrderMark : Char := '\ufeff'

/-- A gap is shown as the replacement character, and a byte order mark at the start is dropped.
Bytes in another encoding, such as those after a mark of UTF-16, are taken for UTF-8 too. -/
def lossy (bytes : List UInt8) : String :=
  match (decode bytes).map (·.getD replacement) with
  | [] => ""
  | c :: rest => String.ofList (if c = byteOrderMark then rest else c :: rest)

def encode (s : String) : List UInt8 := s.toUTF8.toList

end EnvClient.Text.Utf8

import EnvClient.Json.Numeral
import EnvClient.Text.Hex

/-! The tree of a JSON text as far as the text is JSON: where it stops being so stands a
broken leaf, and nothing follows it. A reader that walks the tree in text order meets the
first fault of the text first. -/
namespace EnvClient.Json

inductive Fault where
  | truncated
  | malformed
deriving DecidableEq, Repr

/-- A text that is only passed over is held to fewer rules than one whose value is wanted, so
the same place may be a different fault for the two. -/
structure Break where
  wanted : Fault
  skipped : Fault
deriving DecidableEq, Repr

def Fault.break (f : Fault) : Break := ⟨f, f⟩

mutual
/-- A number out of range and a text with half a surrogate pair have no value, but can be
passed over. -/
inductive Doc where
  | null
  | bool (value : Bool)
  | number (value : Option Number)
  | string (value : Option String)
  | array (items : Items)
  | object (members : DocMembers)
  | broken (fault : Break)
inductive Items where
  | done
  | item (value : Doc) (rest : Items)
  | broken (fault : Break)
inductive DocMembers where
  | done
  | member (name : Option String) (value : Doc) (rest : DocMembers)
  | broken (fault : Break)
end

def isBlank (c : Char) : Bool := c == ' ' || c == '\n' || c == '\t' || c == '\r'

def skipBlanks (s : List Char) : List Char := s.dropWhile isBlank

def codeUnit? (a b c d : Char) : Option Nat := do
  return 16 * (16 * (16 * (← Text.hexValue? a) + (← Text.hexValue? b)) + (← Text.hexValue? c)) + (← Text.hexValue? d)

def unescape? (c : Char) : Option Char :=
  match c with
  | '"' | '\\' | '/' => some c
  | 'b' => some '\x08'
  | 'f' => some '\x0c'
  | 'n' => some '\n'
  | 'r' => some '\r'
  | 't' => some '\t'
  | _ => none

def isHighSurrogate (n : Nat) : Bool := 0xD800 ≤ n && n < 0xDC00
def isLowSurrogate (n : Nat) : Bool := 0xDC00 ≤ n && n < 0xE000

def fromSurrogates (high low : Nat) : Char :=
  Char.ofNat (0x10000 + (high - 0xD800) * 0x400 + (low - 0xDC00))

inductive Quoted where
  | closed (value : Option String) (rest : List Char)
  | broken (fault : Break)

/-- What has been read of a text: its characters in reverse, whether all of them are ones, and
a high surrogate that waits for its other half. -/
structure Quoted.State where
  chars : List Char
  whole : Bool
  high : Option Nat

namespace Quoted

def State.start : State := ⟨[], true, none⟩

/-- A high surrogate that anything else follows is no character. -/
def State.settle (st : State) : State :=
  if st.high.isSome then { st with whole := false, high := none } else st

def State.push (st : State) (c : Char) : State :=
  let st := st.settle
  { st with chars := c :: st.chars }

def State.pushUnit (st : State) (n : Nat) : State :=
  match st.high with
  | some high =>
    if isLowSurrogate n then ⟨fromSurrogates high n :: st.chars, st.whole, none⟩
    else ⟨st.chars, false, if isHighSurrogate n then some n else none⟩
  | none =>
    if isHighSurrogate n then { st with high := some n }
    else if isLowSurrogate n then { st with whole := false }
    else { st with chars := Char.ofNat n :: st.chars }

def State.value (st : State) : Option String :=
  let st := st.settle
  if st.whole then some (String.ofList st.chars.reverse) else none

def State.stop (st : State) (f : Fault) : Quoted :=
  broken ⟨if st.whole then f else .malformed, f⟩

/-- The number of bytes, of at most four characters, decides whether an escape is cut off. -/
def isCut (s : List Char) : Bool := (s.take 4).foldl (fun n c => n + c.utf8Size) 0 < 4

def read (st : State) : List Char → Quoted
  | [] => st.stop .truncated
  | '"' :: rest => closed st.value rest
  | '\\' :: 'u' :: a :: b :: c :: d :: rest =>
    match codeUnit? a b c d with
    | some n => read (st.pushUnit n) rest
    | none => st.stop .malformed
  | '\\' :: 'u' :: rest => st.stop (if isCut rest then .truncated else .malformed)
  | '\\' :: c :: rest =>
    match unescape? c with
    | some e => read (st.push e) rest
    | none => st.settle.stop .malformed
  | ['\\'] => st.stop .truncated
  | c :: rest => if c < ' ' then st.settle.stop .malformed else read (st.push c) rest

end Quoted

def takeDigits (s : List Char) : List Char × List Char := s.span Char.isDigit

/-- Digits missing after the sign, the point or the exponent are malformed, but cut off if the
text ends there and the value is wanted. -/
def missingDigits (rest : List Char) : Break :=
  ⟨if rest.isEmpty then .truncated else .malformed, .malformed⟩

def readFraction : List Char → Except Break (Option (List Char) × List Char)
  | '.' :: rest =>
    let ds := takeDigits rest
    if ds.1.isEmpty then .error (missingDigits rest) else .ok (some ds.1, ds.2)
  | rest => .ok (none, rest)

def readSign : List Char → Bool × List Char
  | '-' :: rest => (true, rest)
  | '+' :: rest => (false, rest)
  | rest => (false, rest)

def readExponent : List Char → Except Break (Option (Bool × List Char) × List Char)
  | [] => .ok (none, [])
  | e :: rest =>
    if e = 'e' ∨ e = 'E' then
      let signed := readSign rest
      let ds := takeDigits signed.2
      if ds.1.isEmpty then .error (missingDigits signed.2) else .ok (some (signed.1, ds.1), ds.2)
    else .ok (none, e :: rest)

def readNumeral (negative : Bool) (s : List Char) : Except Break (Numeral × List Char) :=
  let whole := takeDigits s
  match whole.1 with
  | [] => .error (missingDigits s)
  | '0' :: _ :: _ => .error Fault.malformed.break
  | digits => do
    let (fraction, rest) ← readFraction whole.2
    let (exponent, rest) ← readExponent rest
    return (⟨negative, digits, fraction, exponent⟩, rest)

def readWord : List Char → List Char → Except Fault (List Char)
  | [], s => .ok s
  | _ :: _, [] => .error .truncated
  | w :: ws, c :: rest => if w = c then readWord ws rest else .error .malformed

namespace Doc

def fail (f : Fault) : Doc × List Char := (broken f.break, [])

def ofWord (value : Doc) (word rest : List Char) : Doc × List Char :=
  match readWord word rest with
  | .ok rest => (value, rest)
  | .error f => fail f

def ofNumeral (negative : Bool) (s : List Char) : Doc × List Char :=
  match readNumeral negative s with
  | .ok (n, rest) => (number n.number?, rest)
  | .error fault => (broken fault, [])

def ofQuoted (s : List Char) : Doc × List Char :=
  match Quoted.read .start s with
  | .closed value rest => (string value, rest)
  | .broken fault => (broken fault, [])

mutual
def readValue : Nat → List Char → Doc × List Char
  | 0, _ => fail .truncated
  | fuel + 1, s =>
    match skipBlanks s with
    | [] => fail .truncated
    | '"' :: rest => ofQuoted rest
    | '[' :: rest =>
      let (items, rest) := readItems fuel true rest
      (array items, rest)
    | '{' :: rest =>
      let (members, rest) := readMembers fuel true rest
      (object members, rest)
    | 'n' :: rest => ofWord null "ull".toList rest
    | 't' :: rest => ofWord (bool true) "rue".toList rest
    | 'f' :: rest => ofWord (bool false) "alse".toList rest
    | '-' :: rest => ofNumeral true rest
    | c :: rest => if c.isDigit then ofNumeral false (c :: rest) else fail .malformed
def readItems : Nat → Bool → List Char → Items × List Char
  | 0, _, _ => (.broken Fault.truncated.break, [])
  | fuel + 1, first, s =>
    match skipBlanks s with
    | [] => (.broken Fault.truncated.break, [])
    | ']' :: rest => (.done, rest)
    | c :: rest =>
      if first ∨ c = ',' then
        let (value, rest) := readValue fuel (if first then c :: rest else rest)
        let (items, rest) := readItems fuel false rest
        (.item value items, rest)
      else (.broken Fault.malformed.break, [])
def readMembers : Nat → Bool → List Char → DocMembers × List Char
  | 0, _, _ => (.broken Fault.truncated.break, [])
  | fuel + 1, first, s =>
    match skipBlanks s with
    | [] => (.broken Fault.truncated.break, [])
    | '}' :: rest => (.done, rest)
    | c :: rest =>
      if first ∨ c = ',' then
        match skipBlanks (if first then c :: rest else rest) with
        | [] => (.broken Fault.truncated.break, [])
        | '"' :: rest =>
          match Quoted.read .start rest with
          | .broken fault => (.broken fault, [])
          | .closed name rest =>
            let (value, rest) := match skipBlanks rest with
              | [] => fail .truncated
              | ':' :: rest => readValue fuel rest
              | _ => fail .malformed
            let (members, rest) := readMembers fuel false rest
            (.member name value members, rest)
        | _ => (.broken Fault.malformed.break, [])
      else (.broken Fault.malformed.break, [])
end

def ofText (s : List Char) : Doc × Bool :=
  let (value, rest) := readValue (2 * s.length + 2) s
  (value, !(skipBlanks rest).isEmpty)

end Doc
end EnvClient.Json

import EnvClient.Yaml.Token.Gap

/-! Texts of block scalars. Lines that stand at the margin of the block are its text; the
breaks between them are kept or folded, and those after them are treated as its header says. -/
namespace EnvClient.Yaml.Token

inductive Chomp where
  | strip
  | clip
  | keep
deriving DecidableEq, Repr

structure BlockHeader where
  chomp : Chomp
  /-- How far the margin is from that of the collection around the block, if it is given. -/
  indent : Option Nat
deriving DecidableEq, Repr

def chomp? (c : Char) : Option Chomp :=
  if c = '+' then some .keep else if c = '-' then some .strip else none

/-- What may follow the mark of a block on its line: two hints in any order. A margin of zero
is refused. -/
def blockHints : Input → Option (BlockHeader × Input)
  | [] => some (⟨.clip, none⟩, [])
  | a :: rest =>
    match chomp? a.char with
    | some chomp =>
      match rest with
      | b :: rest' =>
        if b.char.isDigit then
          if b.char = '0' then none else some (⟨chomp, some (b.char.toNat - '0'.toNat)⟩, rest')
        else some (⟨chomp, none⟩, b :: rest')
      | [] => some (⟨chomp, none⟩, [])
    | none =>
      if a.char.isDigit then
        if a.char = '0' then none
        else
          let indent := some (a.char.toNat - '0'.toNat)
          match rest with
          | b :: rest' =>
            match chomp? b.char with
            | some chomp => some (⟨chomp, indent⟩, rest')
            | none => some (⟨.clip, indent⟩, b :: rest')
          | [] => some (⟨.clip, indent⟩, [])
      else some (⟨.clip, none⟩, a :: rest)

/-- The furthest column that is reached before the text of a block starts; a tab there is refused. -/
def reach (furthest : Nat) : Input → Option Nat
  | [] => some furthest
  | c :: rest =>
    if c.char = ' ' then reach (max furthest (c.place.column + 1)) rest
    else if c.char = '\t' then none
    else if isBreak c.char then reach furthest rest
    else some furthest

/-- The break at the end of the last line of text and those after it; whether that line
started with a blank; and whether the line at hand has reached the margin. -/
structure BlockState where
  first : List Char
  others : List Char
  afterBlank : Bool
  inLine : Bool
deriving DecidableEq, Repr

namespace BlockState

def start : BlockState := ⟨[], [], false, false⟩

/-- What stands for the breaks before a line of text. A break between two lines of which
neither starts with a blank is folded to a space, or to nothing before other breaks. -/
def join (folded startsBlank : Bool) (st : BlockState) : List Char :=
  if folded && st.first == ['\n'] && !st.afterBlank && !startsBlank then
    (if st.others = [] then [' '] else []) ++ st.others
  else st.first ++ st.others

def close (chomp : Chomp) (st : BlockState) : List Char :=
  match chomp with
  | .strip => []
  | .clip => st.first
  | .keep => st.first ++ st.others

end BlockState

def blockText (folded : Bool) (chomp : Chomp) (margin : Nat) (st : BlockState) :
    Input → Option (List Char × Input)
  | [] => some (st.close chomp, [])
  | c :: rest =>
    if st.inLine then
      if isBreak c.char then blockText folded chomp margin ⟨[breakChar c.char], [], st.afterBlank, false⟩ rest
      else (blockText folded chomp margin st rest).map fun (text, rest) => (c.char :: text, rest)
    else if c.char = ' ' ∧ c.place.column < margin then blockText folded chomp margin st rest
    else if c.char = '\t' ∧ c.place.column < margin then none
    else if isBreak c.char then
      blockText folded chomp margin { st with others := st.others ++ [breakChar c.char] } rest
    else if c.place.column = margin then
      let startsBlank := isBlank c.char
      (blockText folded chomp margin ⟨[], [], startsBlank, true⟩ rest).map fun (text, rest) =>
        (st.join folded startsBlank ++ c.char :: text, rest)
    else some (st.close chomp, c :: rest)

/-- The margin of a block, right of the collection around it, if there is one, unless its
header places it. -/
def blockMargin (outer indent : Option Nat) (s : Input) : Option Nat :=
  match indent with
  | some n => some (outer.getD 0 + n)
  | none =>
    let least := match outer with
      | some n => n + 1
      | none => 1
    (reach 0 s).map (max least)

def blockScalar (folded : Bool) (outer : Option Nat) (s : Input) : Option (List Char × Input) := do
  let (header, rest) ← blockHints s
  let rest ← rest.endLine?
  let margin ← blockMargin outer header.indent rest
  blockText folded header.chomp margin .start rest

end EnvClient.Yaml.Token

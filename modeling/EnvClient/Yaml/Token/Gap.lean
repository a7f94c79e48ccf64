import EnvClient.Yaml.Place

/-! What stands between two words of a scalar that may span lines. A single break is a space,
further breaks are kept, and blanks around breaks are dropped. -/
namespace EnvClient.Yaml

inductive Gap where
  | blanks (cs : List Char)
  /-- The first break is nothing at all when it was escaped. -/
  | breaks (first others : List Char)
deriving DecidableEq, Repr

/-- A break as it stands in a scalar: the breaks of one line are line feeds. -/
def breakChar (c : Char) : Char :=
  if c = '\r' ∨ c = '\n' ∨ c = '\u0085' then '\n' else c

namespace Gap

def none : Gap := blanks []

def escaped : Gap := breaks [] []

def isBroken : Gap → Bool
  | blanks _ => false
  | breaks _ _ => true

def isNone : Gap → Bool
  | blanks [] => true
  | _ => false

def addBlank (c : Char) : Gap → Gap
  | blanks cs => blanks (cs ++ [c])
  | gap => gap

def addBreak (c : Char) : Gap → Gap
  | blanks _ => breaks [breakChar c] []
  | breaks first others => breaks first (others ++ [breakChar c])

def text : Gap → List Char
  | blanks cs => cs
  | breaks first others =>
    if first = ['\n'] then (if others = [] then [' '] else others) else first ++ others

end Gap
end EnvClient.Yaml

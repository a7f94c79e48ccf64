/-! Finite maps from names to values, kept as lists in increasing order of name.
Names compare by code point, which is also the order of their UTF-8 bytes. -/
namespace EnvClient

abbrev Members (α : Type) := List (String × α)

namespace Members

variable {α β : Type}

/-- The strict order of names that every operation keeps. -/
def Sorted (m : Members α) : Prop := m.Pairwise fun a b => a.1 < b.1

def names (m : Members α) : List String := m.map (·.1)

def get? (name : String) : Members α → Option α
  | [] => none
  | (key, value) :: rest => if key = name then some value else get? name rest

/-- The value replaces an earlier one of the same name. -/
def insert (name : String) (value : α) : Members α → Members α
  | [] => [(name, value)]
  | (key, old) :: rest =>
    if name < key then (name, value) :: (key, old) :: rest
    else if name = key then (name, value) :: rest
    else (key, old) :: insert name value rest

def erase (name : String) : Members α → Members α
  | [] => []
  | (key, value) :: rest => if key = name then rest else (key, value) :: erase name rest

/-- Of two values under one name the later wins. -/
def ofList (entries : List (String × α)) : Members α :=
  entries.foldl (fun m entry => insert entry.1 entry.2 m) []

def mapValues (f : α → β) (m : Members α) : Members β := m.map fun entry => (entry.1, f entry.2)

end Members
end EnvClient

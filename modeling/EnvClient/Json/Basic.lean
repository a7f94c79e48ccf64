import EnvClient.Binary64
import EnvClient.Members

/-! JSON values. Objects keep their members in the order in which they are written;
an object read as a plain value has them sorted by name. -/
namespace EnvClient

/-- Integers of 64 bits, signed or unsigned, and finite floating-point numbers. -/
inductive Number where
  | int (value : Int) (fits : -0x8000000000000000 ≤ value ∧ value < 0x10000000000000000)
  | float (value : Binary64)
deriving DecidableEq, Repr

def Number.ofInt? (value : Int) : Option Number :=
  if h : -0x8000000000000000 ≤ value ∧ value < 0x10000000000000000 then some (.int value h) else none

def Number.ofInt32 (n : Int32) : Number :=
  .int n.toInt ⟨Int.le_trans (by decide) n.le_toInt, Int.lt_trans n.toInt_lt (by decide)⟩

inductive Json where
  | null
  | bool (value : Bool)
  | number (value : Number)
  | string (value : String)
  | array (items : List Json)
  | object (members : List (String × Json))
deriving Inhabited, Repr

namespace Json

def ofInt32 (n : Int32) : Json := number (.ofInt32 n)

def bool? : Json → Option Bool
  | bool value => some value
  | _ => none

mutual
/-- Whether every object at any depth has its members in strictly increasing order of name. -/
def Sorted : Json → Prop
  | array items => SortedItems items
  | object members => Members.Sorted members ∧ SortedMembers members
  | _ => True
def SortedItems : List Json → Prop
  | [] => True
  | item :: rest => item.Sorted ∧ SortedItems rest
def SortedMembers : List (String × Json) → Prop
  | [] => True
  | (_, value) :: rest => value.Sorted ∧ SortedMembers rest
end

mutual
def decEq : (a b : Json) → Decidable (a = b)
  | null, null => isTrue rfl
  | bool a, bool b =>
    if h : a = b then isTrue (h ▸ rfl) else isFalse fun e => h (Json.bool.inj e)
  | number a, number b =>
    if h : a = b then isTrue (h ▸ rfl) else isFalse fun e => h (Json.number.inj e)
  | string a, string b =>
    if h : a = b then isTrue (h ▸ rfl) else isFalse fun e => h (Json.string.inj e)
  | array a, array b =>
    match decEqItems a b with
    | isTrue h => isTrue (h ▸ rfl)
    | isFalse h => isFalse fun e => h (Json.array.inj e)
  | object a, object b =>
    match decEqMembers a b with
    | isTrue h => isTrue (h ▸ rfl)
    | isFalse h => isFalse fun e => h (Json.object.inj e)
  | null, bool _ | null, number _ | null, string _ | null, array _ | null, object _
  | bool _, null | bool _, number _ | bool _, string _ | bool _, array _ | bool _, object _
  | number _, null | number _, bool _ | number _, string _ | number _, array _
  | number _, object _ | string _, null | string _, bool _ | string _, number _
  | string _, array _ | string _, object _ | array _, null | array _, bool _
  | array _, number _ | array _, string _ | array _, object _ | object _, null
  | object _, bool _ | object _, number _ | object _, string _ | object _, array _ =>
    isFalse nofun
def decEqItems : (a b : List Json) → Decidable (a = b)
  | [], [] => isTrue rfl
  | [], _ :: _ | _ :: _, [] => isFalse nofun
  | x :: xs, y :: ys =>
    match decEq x y, decEqItems xs ys with
    | isTrue h, isTrue t => isTrue (h ▸ t ▸ rfl)
    | isFalse h, _ => isFalse fun e => h (List.cons.inj e).1
    | _, isFalse t => isFalse fun e => t (List.cons.inj e).2
def decEqMembers : (a b : List (String × Json)) → Decidable (a = b)
  | [], [] => isTrue rfl
  | [], _ :: _ | _ :: _, [] => isFalse nofun
  | (k, x) :: xs, (l, y) :: ys =>
    match decEq x y, decEqMembers xs ys with
    | isTrue h, isTrue t =>
      if n : k = l then isTrue (n ▸ h ▸ t ▸ rfl)
      else isFalse fun e => n (Prod.mk.inj (List.cons.inj e).1).1
    | isFalse h, _ => isFalse fun e => h (Prod.mk.inj (List.cons.inj e).1).2
    | _, isFalse t => isFalse fun e => t (List.cons.inj e).2
end

instance : DecidableEq Json := decEq

end Json
end EnvClient

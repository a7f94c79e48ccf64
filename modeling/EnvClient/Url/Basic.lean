import EnvClient.Url.Form

/-! URLs that requests can be sent to. Reading one brings its path into a normal form:
backslashes count as slashes, and the segments `.` and `..` are taken out. -/
namespace EnvClient

/-- A path is kept as its segments, escaped, and has at least one. -/
structure Url where
  scheme : String
  authority : String
  path : List String
  query : Option String
deriving DecidableEq, Repr

namespace Url

def isSlash (c : Char) : Bool := c == '/' || c == '\\'

def isTrimmed (c : Char) : Bool := c ≤ ' '

def isDropped (c : Char) : Bool := c == '\t' || c == '\n' || c == '\r'

/-- Control characters and spaces around a URL, and tabs and breaks within it, do not count. -/
def clean (s : List Char) : List Char :=
  ((s.dropWhile isTrimmed).reverse.dropWhile isTrimmed).reverse.filter (!isDropped ·)

def isSchemeChar (c : Char) : Bool := c.isAlphanum || c == '+' || c == '-' || c == '.'

def splitScheme? (s : List Char) : Option (String × List Char) :=
  let name := s.takeWhile isSchemeChar
  match name, s.dropWhile isSchemeChar with
  | c :: _, ':' :: rest =>
    if c.isAlpha then some (String.ofList (name.map Char.toLower), rest) else none
  | _, _ => none

def endsAuthority (c : Char) : Bool := isSlash c || c == '?' || c == '#'

def afterLast (c : Char) (s : List Char) : List Char := (s.reverse.takeWhile (· != c)).reverse

def isHostForbidden (c : Char) : Bool := c ≤ ' ' || "#%/<>?@[\\]^|\x7f".toList.contains c

/-- A host, and a number after a colon where it is not the standard one of the scheme. A host
in brackets is taken as it is. -/
def authority? (scheme : String) (s : List Char) : Option String :=
  let s := afterLast '@' s
  let (host, rest) := match s with
    | '[' :: _ => (s.takeWhile (· != ']') ++ [']'], (s.dropWhile (· != ']')).drop 1)
    | _ => (s.takeWhile (· != ':'), s.dropWhile (· != ':'))
  let plain := if s.head? = some '[' then !host.isEmpty else !host.any isHostForbidden
  let digits? : Option (List Char) := match rest with
    | [] => some []
    | ':' :: digits => if digits.all Char.isDigit then some digits else none
    | _ => none
  match digits? with
  | none => none
  | some digits =>
    let number := digits.foldl (fun n c => 10 * n + (c.toNat - '0'.toNat)) 0
    if host.isEmpty || !plain || 65535 < number then none
    else
      let host := host.map Char.toLower
      let standard := if scheme = "https" then 443 else 80
      some (String.ofList (if digits.isEmpty || number = standard then host
        else host ++ ':' :: Nat.toDigits 10 number))

def splitSlashes : List Char → List (List Char)
  | [] => [[]]
  | c :: rest =>
    if isSlash c then [] :: splitSlashes rest
    else match splitSlashes rest with
      | piece :: pieces => (c :: piece) :: pieces
      | [] => [[c]]

/-- An escaped dot counts as a dot. -/
def undot : List Char → List Char
  | '%' :: '2' :: e :: rest => if e = 'e' ∨ e = 'E' then '.' :: undot rest else '%' :: '2' :: e :: undot rest
  | c :: rest => c :: undot rest
  | [] => []

def isDot (piece : List Char) : Bool := undot piece == ['.']

def isDoubleDot (piece : List Char) : Bool := undot piece == ['.', '.']

/-- Bytes that a path does not hold as they are. Percent signs are left alone. -/
def isPathSpecial (b : UInt8) : Bool := isControl b || isAnyOf " \"#<>?`\x7b\x7d" b

def isQuerySpecial (b : UInt8) : Bool := isControl b || isAnyOf " \"#<>'" b

def escapeText (special : UInt8 → Bool) (s : List Char) : String :=
  String.ofList (escape special (String.ofList s))

/-- Adds pieces to the segments so far, the last one first. A dot at the end leaves an empty
segment. -/
def addPieces (segments : List String) : List (List Char) → List String
  | [] => segments
  | piece :: rest =>
    if isDoubleDot piece then
      addPieces (if rest.isEmpty then "" :: segments.drop 1 else segments.drop 1) rest
    else if isDot piece then addPieces (if rest.isEmpty then "" :: segments else segments) rest
    else addPieces (escapeText isPathSpecial piece :: segments) rest

def segments (path : List Char) : List String :=
  (addPieces [] (splitSlashes (path.drop 1))).reverse

/-- Reads an `http` or `https` URL; what follows a hash sign is not part of a request. -/
def ofText? (s : String) : Option Url := do
  let (scheme, rest) ← splitScheme? (clean s.toList)
  if scheme ≠ "http" ∧ scheme ≠ "https" then none
  else
    let rest := rest.dropWhile isSlash
    let authority ← authority? scheme (rest.takeWhile (!endsAuthority ·))
    let rest := (rest.dropWhile (!endsAuthority ·)).takeWhile (· != '#')
    let query := match rest.dropWhile (· != '?') with
      | _ :: query => some (escapeText isQuerySpecial query)
      | [] => none
    return ⟨scheme, authority, segments (rest.takeWhile (· != '?')), query⟩

def origin (u : Url) : String := u.scheme ++ "://" ++ u.authority

def addPair (name value : String) (u : Url) : Url :=
  let pair := String.ofList (formPair name value)
  { u with query := some (match u.query with
      | none | some "" => pair
      | some query => query ++ "&" ++ pair) }

def target (u : Url) : String :=
  String.join (u.path.map fun segment => "/" ++ segment) ++
    (match u.query with
      | some query => "?" ++ query
      | none => "")

end Url
end EnvClient

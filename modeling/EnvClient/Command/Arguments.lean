import EnvClient.Command.Basic

/-! Command lines. Options may stand among the words of their command, once each; two dashes
make words of all that follows. The parts are judged in their order, so of two that end the
reading the first one counts. -/
namespace EnvClient

inductive ValueKind where
  | any
  | format
  | file
deriving DecidableEq, Repr

def ValueKind.accepts : ValueKind → String → Bool
  | any, _ => true
  | format, text => (Format.ofName? text).isSome
  | file, text => text != ""

structure Switch where
  name : String
  letter : Option Char
  value : Option ValueKind
deriving DecidableEq, Repr

inductive NoCommand where
  | version
  | help
  | misuse
deriving DecidableEq, Repr

namespace Switch

def help : Switch := ⟨"help", some 'h', none⟩
def version : Switch := ⟨"version", some 'V', none⟩
def backend : Switch := ⟨"backend-url", none, some .any⟩
def showSecrets : Switch := ⟨"show-secrets", none, none⟩
def valueFormat : Switch := ⟨"value", none, some .format⟩
def property : Switch := ⟨"property", some 'p', some .any⟩
def format : Switch := ⟨"format", some 'F', some .format⟩
def pretend : Switch := ⟨"pretend", none, none⟩

def ofLong? (switches : List Switch) (body : List Char) : Option (Switch × Option String) :=
  let attached := match body.dropWhile (· != '=') with
    | _ :: value => some (String.ofList value)
    | [] => none
  let name := String.ofList (body.takeWhile (· != '='))
  (switches.find? (·.name == name)).bind fun s =>
    if attached.isSome && s.value.isNone then none else some (s, attached)

/-- The option of a letter. What follows the letter of an option without a value is not read,
since each such option ends the reading. -/
def ofLetter? (switches : List Switch) (letter : Char) (rest : List Char) :
    Option (Switch × Option String) :=
  let attached := match rest with
    | [] => none
    | '=' :: value => some (String.ofList value)
    | value => some (String.ofList value)
  (switches.find? (·.letter == some letter)).map (·, attached)

end Switch

inductive Argument where
  | word
  | endOfOptions
  | option (s : Switch) (attached : Option String)
  | unknown
deriving DecidableEq, Repr

namespace Argument

def ofOption? : Option (Switch × Option String) → Argument
  | some (s, attached) => option s attached
  | none => unknown

def ofText (switches : List Switch) (text : String) : Argument :=
  match text.toList with
  | ['-', '-'] => endOfOptions
  | '-' :: '-' :: body => ofOption? (Switch.ofLong? switches body)
  | '-' :: letter :: rest => ofOption? (Switch.ofLetter? switches letter rest)
  | _ => word

def looksLikeOption (text : String) : Bool :=
  match text.toList with
  | '-' :: _ :: _ => true
  | _ => false

end Argument

/-- What may stand at one level of a command line: options, and the words of a command. A level
without words is one that the first word ends, which names what comes next. -/
structure Level where
  switches : List Switch
  words : Option (List ValueKind)
deriving DecidableEq, Repr

/-- Options with their values in reverse order, then words. -/
structure Matches where
  options : List (String × String)
  words : List String
deriving DecidableEq, Repr

namespace Matches

def empty : Matches := ⟨[], []⟩

def value? (name : String) (m : Matches) : Option String := m.options.lookup name

def has (name : String) (m : Matches) : Bool := (m.value? name).isSome

def format? (name : String) (m : Matches) : Option Format := (m.value? name).bind Format.ofName?

def addWord (kinds : List ValueKind) (word : String) (m : Matches) : Except NoCommand Matches :=
  match kinds[m.words.length]? with
  | none => .error .misuse
  | some kind =>
    if kind.accepts word then .ok { m with words := m.words ++ [word] } else .error .misuse

/-- An option that is given again is refused; one that asks for help or a version is obeyed. -/
def addOption (s : Switch) (value : String) (m : Matches) : Except NoCommand Matches :=
  if s = .help then .error .help
  else if s = .version then .error .version
  else if m.has s.name || !(s.value.all (·.accepts value)) then .error .misuse
  else .ok { m with options := (s.name, value) :: m.options }

def addWords (kinds : List ValueKind) : List String → Matches → Except NoCommand Matches
  | [], m => .ok m
  | word :: rest, m => do addWords kinds rest (← m.addWord kinds word)

def read (l : Level) (m : Matches) : List String → Except NoCommand (Matches × List String)
  | [] => .ok (m, [])
  | text :: rest =>
    match Argument.ofText l.switches text, l.words with
    | .word, none => .ok (m, text :: rest)
    | .word, some kinds => do (← m.addWord kinds text).read l rest
    | .endOfOptions, none | .unknown, _ => .error .misuse
    | .endOfOptions, some kinds => do return (← m.addWords kinds rest, [])
    | .option s (some value), _ => do (← m.addOption s value).read l rest
    | .option s none, _ =>
      if s.value.isNone then do (← m.addOption s "").read l rest
      else match rest with
        | value :: rest =>
          if Argument.looksLikeOption value then .error .misuse
          else do (← m.addOption s value).read l rest
        | [] => .error .misuse

end Matches

namespace Command

def levels : List (String × List Switch × List ValueKind) := [
  ("ls", [], [.any]),
  ("init", [], [.any, .any]),
  ("get", [.showSecrets, .valueFormat], [.any, .any]),
  ("update", [], [.any, .any, .file]),
  ("check", [], [.any, .file]),
  ("rm", [], [.any, .any]),
  ("open", [.property, .format, .pretend], [.any, .any])]

def ofMatches? (name : String) (m : Matches) : Option Command :=
  match name, m.words with
  | "ls", [organization] => some (.list organization)
  | "init", [organization, environment] => some (.create organization environment)
  | "get", [organization, environment] =>
    some (.get organization environment (m.has "show-secrets") (m.format? "value"))
  | "update", [organization, environment, file] => some (.update organization environment file)
  | "check", [organization, file] => some (.check organization file)
  | "rm", [organization, environment] => some (.remove organization environment)
  | "open", [organization, environment] =>
    some (.openEnvironment organization environment (m.value? "property")
      ((m.format? "format").getD .json) (m.has "pretend"))
  | _, _ => none

end Command

namespace NoCommand

/-- Help is given on the program, on a group of commands, on one of them and on help, and nothing
follows what it is given on. -/
def ofEnvTopic : List String → NoCommand
  | [] | ["help"] => help
  | [name] => if (Command.levels.lookup name).isSome then help else misuse
  | _ => misuse

def ofTopic : List String → NoCommand
  | [] | ["help"] => help
  | "env" :: topic => ofEnvTopic topic
  | _ => misuse

end NoCommand

/-- Reads a command line. The place of the service may be given before, between and after the
words of the command; the last of them counts. -/
def Invocation.ofArguments (args : List String) : Except NoCommand Invocation := do
  let common : List Switch := [.backend, .help]
  let (outer, rest) ← Matches.empty.read ⟨.version :: common, none⟩ args
  match rest with
  | "help" :: topic => .error (.ofTopic topic)
  | "env" :: rest => do
    let (middle, rest) ← Matches.empty.read ⟨common, none⟩ rest
    match rest with
    | "help" :: topic => .error (.ofEnvTopic topic)
    | name :: rest =>
      match Command.levels.lookup name with
      | none => .error .misuse
      | some (switches, words) => do
        let (inner, _) ← Matches.empty.read ⟨switches ++ common, some words⟩ rest
        match Command.ofMatches? name inner with
        | none => .error .misuse
        | some command =>
          return ⟨[inner, middle, outer].findSome? (·.value? "backend-url"), command⟩
    | [] => .error .misuse
  | _ => .error .misuse

end EnvClient

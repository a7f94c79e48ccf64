import EnvClient.Format

/-! What the program can be told to do. -/
namespace EnvClient

inductive Command where
  | list (organization : String)
  | create (organization environment : String)
  | get (organization environment : String) (showSecrets : Bool) (format : Option Format)
  | update (organization environment file : String)
  | check (organization file : String)
  | remove (organization environment : String)
  | openEnvironment (organization environment : String) (property : Option String)
      (format : Format) (pretend : Bool)
deriving DecidableEq, Repr

def Command.file? : Command → Option String
  | .update _ _ file | .check _ file => some file
  | _ => none

structure Invocation where
  backend : Option String
  command : Command
deriving DecidableEq, Repr

end EnvClient

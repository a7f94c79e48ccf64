import EnvClient.Command.Run

/-! The command line program. It has no transport of its own, so no host can be reached. -/
namespace EnvClient

def faultOf : IO.Error → SourceFault
  | .noFileOrDirectory .. => .missing
  | .inappropriateType _ 20 _ => .notDirectory
  | .inappropriateType _ 21 _ => .directory
  | .resourceExhausted _ 36 _ => .nameTooLong
  | e => .other (toString e)

def readSource (file : Option String) : IO Source := do
  match file with
  | none => return ⟨[], fun _ => .error .missing⟩
  | some name =>
    if Source.isStdin name then
      let bytes ← (← IO.getStdin).readBinToEnd
      return ⟨bytes.toList, fun _ => .error .missing⟩
    else
      let content ← (IO.FS.readBinFile name).toBaseIO
      return ⟨[], fun _ => (content.mapError faultOf).map ByteArray.toList⟩

/-- Temporary files, named after the time at which the program started. -/
def freshDisk : IO Disk := do
  let folder := (← IO.getEnv "TMPDIR").getD "/tmp"
  let stamp ← IO.monoNanosNow
  let path (n : Nat) := folder ++ "/esc-" ++ toString stamp ++ "-" ++ toString n
  return { files := [], path, fate := fun _ _ => .kept, made := 0 }

def readVariables : IO (String → Option String) := do
  let names := [Configuration.backendVariable, Configuration.tokenVariable,
    Configuration.userAgentVariable]
  let values ← names.mapM fun name => return (name, ← IO.getEnv name)
  return fun name => (values.lookup name).join

end EnvClient

open EnvClient in
def main (args : List String) : IO UInt32 := do
  let file := match Invocation.ofArguments args with
    | .ok invocation => invocation.command.file?
    | .error _ => none
  let resources : Resources := ⟨.silent, ← freshDisk⟩
  let (outcome, resources) :=
    runArguments args (← readVariables) (← readSource file) resources
  for (path, content) in resources.disk.files do
    IO.FS.writeFile path content
  (← IO.getStdout).putStr outcome.output
  (← IO.getStderr).putStr outcome.errors
  return outcome.code.number.toUInt32

import EnvClient.Members

/-! Temporary files on a disk whose operations may fail. A file that is not kept leaves
nothing behind. -/
namespace EnvClient

inductive StorageFault where
  | create
  | write
  | keep
deriving DecidableEq, Repr

def StorageFault.text : StorageFault → String
  | create => "a temporary file could not be created"
  | write => "a temporary file could not be written"
  | keep => "a temporary file could not be kept"

inductive Fate where
  | kept
  | failsToOpen
  | cutShort (written : Nat)
  | lost
deriving DecidableEq, Repr

/-- Files by path, the paths that temporary files are given in turn, and the fate of each one,
which may depend on its content. -/
structure Disk where
  files : Members String
  path : Nat → String
  fate : Nat → String → Fate
  made : Nat

namespace Disk

def put (path content : String) (d : Disk) : Disk :=
  { d with files := Members.insert path content d.files }

def remove (path : String) (d : Disk) : Disk :=
  { d with files := Members.erase path d.files }

def removeAll (paths : List String) (d : Disk) : Disk :=
  paths.foldl (fun d path => d.remove path) d

/-- Creates a file, writes its content and keeps it. A file that fails on the way is removed. -/
def writeTemporary (content : String) (d : Disk) : Except StorageFault String × Disk :=
  let path := d.path d.made
  let next := { d with made := d.made + 1 }
  match d.fate d.made content with
  | .failsToOpen => (.error .create, next)
  | .cutShort written =>
    (.error .write, (next.put path (String.ofList (content.toList.take written))).remove path)
  | .lost => (.error .keep, (next.put path content).remove path)
  | .kept => (.ok path, next.put path content)

end Disk
end EnvClient

import EnvClient.Text.Utf8

/-! Where definitions are read from: standard input, or a file. -/
namespace EnvClient

inductive SourceFault where
  | missing
  | directory
  | notDirectory
  | nameTooLong
  | nullInName
  | notText
  | other (text : String)
deriving DecidableEq, Repr

def SourceFault.text : SourceFault → String
  | missing => "No such file or directory (os error 2)"
  | directory => "Is a directory (os error 21)"
  | notDirectory => "Not a directory (os error 20)"
  | nameTooLong => "File name too long (os error 36)"
  | nullInName => "file name contained an unexpected NUL byte"
  | notText => "stream did not contain valid UTF-8"
  | other text => text

structure Source where
  stdin : List UInt8
  file : String → Except SourceFault (List UInt8)

structure SourceError where
  file : Option String
  fault : SourceFault
deriving DecidableEq, Repr

def SourceError.message (e : SourceError) : String :=
  match e.file with
  | some file => "failed to read " ++ file ++ ": " ++ e.fault.text
  | none => e.fault.text

namespace Source

/-- Whether a path names standard input: a dash, with nothing after it that leads elsewhere. -/
def isStdin (path : String) : Bool :=
  match path.splitOn "/" with
  | first :: rest => first == "-" && rest.all fun part => part == "" || part == "."
  | [] => false

def textOf (bytes : List UInt8) : Except SourceFault String :=
  match Text.Utf8.text? bytes with
  | some text => .ok text
  | none => .error .notText

def read (s : Source) (path : String) : Except SourceError String :=
  if isStdin path then (textOf s.stdin).mapError (⟨none, ·⟩)
  else ((s.file path).bind textOf).mapError (⟨some path, ·⟩)

end Source

/-- Folders and files by their full paths, and the folder in which relative paths start. -/
structure FileTree where
  start : List String
  folders : List (List String)
  files : List (List String × List UInt8)

namespace FileTree

inductive Place where
  | folder (path : List String)
  | file (content : List UInt8)
deriving DecidableEq, Repr

/-- The longest path and the longest name, in bytes. -/
def maxPath : Nat := 4095
def maxName : Nat := 255

/-- Follows one part of a path. An empty part and a dot stay, two dots go up. -/
def step (t : FileTree) (folder : List String) (part : String) : Except SourceFault Place :=
  if part = "" ∨ part = "." then .ok (.folder folder)
  else if part = ".." then .ok (.folder folder.dropLast)
  else if maxName < part.utf8ByteSize then .error .nameTooLong
  else
    let path := folder ++ [part]
    match t.files.lookup path with
    | some content => .ok (.file content)
    | none => if t.folders.contains path then .ok (.folder path) else .error .missing

def walk (t : FileTree) : Place → List String → Except SourceFault Place
  | place, [] => .ok place
  | .file _, _ :: _ => .error .notDirectory
  | .folder folder, part :: rest => do t.walk (← t.step folder part) rest

def find (t : FileTree) (path : String) : Except SourceFault (List UInt8) := do
  if path.toList.contains '\x00' then throw .nullInName
  if path = "" then throw .missing
  if maxPath < path.utf8ByteSize then throw .nameTooLong
  let place ← match path.splitOn "/" with
    | "" :: rest => t.walk (.folder []) rest
    | parts => t.walk (.folder t.start) parts
  match place with
  | .file content => return content
  | .folder _ => throw .directory

def source (t : FileTree) (stdin : List UInt8) : Source := ⟨stdin, t.find⟩

end FileTree
end EnvClient

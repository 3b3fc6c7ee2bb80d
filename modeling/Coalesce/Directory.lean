/-! # A directory of files

A path is resolved name by name; the first name that does not lead on decides the fault. -/
namespace Coalesce

inductive FileNode where
  | file (content : ByteArray)
  | folder

abbrev Directory := List (List String × FileNode)

inductive FileFault where
  | notFound
  | notDirectory
  | isDirectory
  | nameTooLong
  | nulInName
  | notUnicode
deriving DecidableEq

def FileFault.message : FileFault → String
  | .notFound => "No such file or directory (os error 2)"
  | .notDirectory => "Not a directory (os error 20)"
  | .isDirectory => "Is a directory (os error 21)"
  | .nameTooLong => "File name too long (os error 36)"
  | .nulInName => "file name contained an unexpected NUL byte"
  | .notUnicode => "stream did not contain valid UTF-8"

namespace Directory

/-- The node at a list of names; a name above others is a directory of its own accord. -/
def node? (d : Directory) (names : List String) : Option FileNode :=
  match d.find? fun e => e.1 = names with
  | some e => some e.2
  | none =>
    if names.isEmpty || d.any fun e => names.isPrefixOf e.1 then some .folder else none

def isTooLong (name : String) : Bool := 255 < name.utf8ByteSize

/-- Above the starting directory there are directories, of which no name is known. -/
def above (parts : List String) : Except FileFault FileNode :=
  match parts.find? fun part => !(part = "" || part = "." || part = "..") with
  | none => .ok .folder
  | some name => .error (if isTooLong name then .nameTooLong else .notFound)

def resolve (d : Directory) : List String → List String → Except FileFault FileNode
  | names, [] =>
    match d.node? names with
    | some node => .ok node
    | none => .error .notFound
  | names, part :: parts =>
    match d.node? names with
    | none => .error .notFound
    | some (.file _) => .error .notDirectory
    | some .folder =>
      if part = "" ∨ part = "." then resolve d names parts
      else if part = ".." then
        if names.isEmpty then above parts else resolve d names.dropLast parts
      else if isTooLong part then .error .nameTooLong
      else resolve d (names ++ [part]) parts

def read (d : Directory) (path : String) : Except FileFault String :=
  if path.isEmpty then .error .notFound
  else if path.contains '\x00' then .error .nulInName
  else if 4095 < path.utf8ByteSize then .error .nameTooLong
  else
    let parts := path.splitOn "/"
    let found :=
      if path.startsWith "/" then above parts else d.resolve [] parts
    match found with
    | .error fault => .error fault
    | .ok .folder => .error .isDirectory
    | .ok (.file content) =>
      match String.fromUTF8? content with
      | some text => .ok text
      | none => .error .notUnicode

end Directory

end Coalesce

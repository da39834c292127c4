import Confinement.Fault

/-!
# Directories

A directory and its files as a value, and what reading a path in it gives. A path is walked name by
name, so every name on the way has to lead to a directory, also where `..` leaves it again. Nothing
is known of what surrounds the directory, except that it consists of directories.
-/
namespace Confinement

/-- A directory by its files. The directories inside are those that the files need. -/
structure Directory where
  /-- Files by the names that lead to them; the first of several with the same names counts. -/
  files : List (List String × ByteArray) := []

namespace Directory

/-- Where a walk along a path has come to. -/
inductive Place where
  /-- A directory around the one at hand. -/
  | outside
  /-- The directory under these names; the one at hand has none. -/
  | directory (names : List String)
  | file (content : ByteArray)

/-- How many bytes a name may have. -/
def maxNameSize : Nat := 255

/-- How many bytes a path may have. -/
def maxPathSize : Nat := 4095

/-- The names that a path is made of. Where slashes meet or stand at the end, an empty name stands
for the directory itself. -/
def namesOf (path : String) : List String := path.splitOn "/"

/-- A directory with files that are written one after the other. -/
def ofFiles (files : List (String × ByteArray)) : Directory :=
  ⟨(files.map fun f => ((namesOf f.1).filter fun name => name != "" && name != ".", f.2)).reverse⟩

/-- What stands under these names. -/
def find? (d : Directory) (names : List String) : Option Place :=
  match d.files.find? (·.1 == names) with
  | some (_, content) => some (.file content)
  | none => if d.files.any fun f => names.isPrefixOf f.1 then some (.directory names) else none

/-- The directory around a place that is one. -/
def above : List String → Place
  | [] => .outside
  | names => .directory names.dropLast

/-- One step of a walk. -/
def step (d : Directory) (place : Place) (name : String) : Except ReadFailure Place :=
  match place with
  | .file _ => .error .notDirectory
  | .outside =>
    if name == "" || name == "." || name == ".." then .ok .outside
    else if name.utf8ByteSize > maxNameSize then .error .nameTooLong
    else .error .notFound
  | .directory names =>
    if name == "" || name == "." then .ok (.directory names)
    else if name == ".." then .ok (above names)
    else if name.utf8ByteSize > maxNameSize then .error .nameTooLong
    else match d.find? (names ++ [name]) with
      | some place => .ok place
      | none => .error .notFound

/-- Walks from a place along the names of a path. -/
def walk (d : Directory) (place : Place) : List String → Except ReadFailure Place
  | [] => .ok place
  | name :: rest =>
    match d.step place name with
    | .ok place => d.walk place rest
    | .error why => .error why

/-- Where a path leads; one that starts with a slash starts outside. -/
def locate (d : Directory) (path : String) : Except ReadFailure Place :=
  if path.contains '\x00' then .error .nulInPath
  else if path.isEmpty then .error .notFound
  else if path.utf8ByteSize > maxPathSize then .error .nameTooLong
  else d.walk (if path.startsWith "/" then .outside else .directory []) (namesOf path)

/-- The text of the file under a path. -/
def read (d : Directory) (path : String) : Except ReadFailure String :=
  match d.locate path with
  | .error why => .error why
  | .ok .outside | .ok (.directory _) => .error .isDirectory
  | .ok (.file content) =>
    match String.fromUTF8? content with
    | some text => .ok text
    | none => .error .notText

end Directory

end Confinement

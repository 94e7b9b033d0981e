/-
  A working directory held in memory, as the surroundings of a program.

  A path is walked one name at a time. The working directory holds files only.
  Of the directories around it no more is known than that they are there,
  apart from the root, which holds the directories of every system, and the
  directory of devices, which holds the null device.
-/
import Ebpf.CommandLine.Host
import Ebpf.CommandLine.Path

namespace Ebpf.CommandLine

/-- The files of a directory that holds no other directory. -/
structure Directory where
  files : List (String × List UInt8)

/-! ## The directories around it -/

/-- A directory in which a walk can stand. -/
inductive Place where
  | working
  | root
  | devices
  | elsewhere
deriving DecidableEq

/-- The directory above. The root is above itself. -/
def Place.parent : Place → Place
  | root | devices => root
  | working | elsewhere => elsewhere

/-- The directories that the root of every system holds, apart from that of the devices. -/
def systemDirectories : List String :=
  ["bin", "boot", "etc", "home", "lib", "media", "mnt", "opt", "proc", "root", "run", "sbin",
   "srv", "sys", "tmp", "usr", "var"]

/-- What a name stands for. -/
inductive Node where
  | directory (place : Place)
  | file (bytes : List UInt8)

/-! ## Walks -/

namespace Directory

/-- What a place holds under an ordinary name. -/
def entry? (d : Directory) (place : Place) (name : String) : Option Node :=
  match place with
  | .working => (d.files.lookup name).map .file
  | .root =>
    if name = "dev" then some (.directory .devices)
    else if systemDirectories.contains name then some (.directory .elsewhere)
    else none
  | .devices => if name = "null" then some (.file []) else none
  | .elsewhere => none

/-- What a name stands for in a place. A dot is the place itself, and two dots
are the directory above. -/
def lookup (d : Directory) (place : Place) (name : String) : Except FileError Node :=
  if name = "." then .ok (.directory place)
  else if name = ".." then .ok (.directory place.parent)
  else if Path.maxNameSize < name.utf8ByteSize then .error .nameTooLong
  else
    match d.entry? place name with
    | none => .error .notFound
    | some node => .ok node

/-- Goes on to the directory of a name. -/
def enter (d : Directory) (place : Place) (name : String) : Except FileError Place :=
  match d.lookup place name with
  | .error e => .error e
  | .ok (.directory next) => .ok next
  | .ok (.file _) => .error .notDirectory

/-- Takes a path apart, and finds the directory in which its last name stands. -/
def walk (d : Directory) (text : String) : Except FileError (Place × Path) :=
  if text = "" then .error .notFound
  else if Path.maxSize < text.utf8ByteSize then .error .nameTooLong
  else
    let path := Path.ofString text
    let start := if path.absolute then Place.root else .working
    (path.route.foldlM d.enter start).map fun place => (place, path)

/-! ## Reading and writing -/

/-- The bytes of the file at a path. -/
def read (d : Directory) (text : String) : Except FileError (List UInt8) := do
  let (place, path) ← d.walk text
  match path.last with
  | none => .error .isDirectory
  | some name =>
    match ← d.lookup place name with
    | .directory _ => .error .isDirectory
    | .file bytes => if path.slashed then .error .notDirectory else .ok bytes

/-- The place and the name under which a file is written at a path. A file that
is not there yet is made, so a name with a slash after it is refused unseen. -/
def target (d : Directory) (text : String) : Except FileError (Place × String) := do
  let (place, path) ← d.walk text
  match path.last with
  | none => .error .isDirectory
  | some name =>
    if path.slashed then .error .isDirectory
    else
      match d.lookup place name with
      | .error .notFound | .ok (.file _) => .ok (place, name)
      | .error e => .error e
      | .ok (.directory _) => .error .isDirectory

/-- Puts a text into the file at a path. Nothing is kept of a file elsewhere. -/
def write (d : Directory) (path text : String) : Directory :=
  match d.target path with
  | .ok (.working, name) => ⟨(name, text.toUTF8.data.toList) :: d.files.filter (·.1 ≠ name)⟩
  | _ => d

/-- A directory as the surroundings of a program. -/
def host (d : Directory) : Host where
  read := d.read
  checkWrite path := (d.target path).map fun _ => ()

/-- The directory after a program that ran in it. -/
def afterExit (d : Directory) (e : Exit) : Directory :=
  match e.written with
  | none => d
  | some (path, text) => d.write path text

end Directory

end Ebpf.CommandLine

/-
  What a command line sees of its surroundings, files to read and to write,
  and what it leaves behind.
-/
import Ebpf.CommandLine.Failure

namespace Ebpf.CommandLine

/-- Why a file cannot be read or written. -/
inductive FileError where
  | notFound
  | notDirectory
  | isDirectory
  | nameTooLong
  | other (reason : String)
deriving DecidableEq

/-- The wording of a file error. -/
def FileError.message : FileError → String
  | notFound => "No such file or directory (os error 2)"
  | notDirectory => "Not a directory (os error 20)"
  | isDirectory => "Is a directory (os error 21)"
  | nameTooLong => "File name too long (os error 36)"
  | other reason => reason

/-- Reading a file, and whether one can be written. -/
structure Host where
  read : String → Except FileError (List UInt8)
  checkWrite : String → Except FileError Unit

/-- How a program ends: its status, what it printed, and a file that it wrote. -/
structure Exit where
  code : Nat
  stdout : String := ""
  stderr : String := ""
  written : Option (String × String) := none

namespace Exit

/-- The end of a program whose command line makes no sense. -/
def usage : Exit := { code := 2 }

/-- The end of a program that failed after it printed `stdout`. -/
def failed (stdout : String) (f : Failure) : Exit :=
  { code := 1, stdout, stderr := f.report }

end Exit

end Ebpf.CommandLine

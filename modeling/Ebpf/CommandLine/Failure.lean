/-
  Failures as a command line reports them: what went wrong, and the chain of
  causes behind it.
-/
import Ebpf.Fault
import Ebpf.ObjectFile

namespace Ebpf.CommandLine

/-- A message and what lies behind it, outermost first. -/
structure Failure where
  message : String
  causes : List String := []

namespace Failure

/-- Puts a failure behind a message. -/
def within (f : Failure) (message : String) : Failure :=
  { message, causes := f.message :: f.causes }

/-- A cause, with the lines after its first indented under it. -/
def causeText (head indent cause : String) : String :=
  head ++ ("\n" ++ indent).intercalate (cause.splitOn "\n")

/-- The causes as shown; several are numbered. -/
def causeLines : List String → List String
  | [cause] => [causeText "    " "    " cause]
  | causes =>
    causes.mapIdx fun i cause => causeText ("    " ++ Text.decimal i ++ ": ") "       " cause

/-- The report of a failure. -/
def report (f : Failure) : String :=
  let causes := if f.causes.isEmpty then [] else ["", "Caused by:"] ++ causeLines f.causes
  String.join ((("Error: " ++ f.message) :: causes).map (· ++ "\n"))

/-- A trap as a failure: behind it its fault, and behind that the reason given from outside. -/
def ofTrap (t : Trap) : Failure :=
  { message := t.message, causes := t.fault.message :: t.fault.reason?.toList }

/-- An error in an object file as a failure. -/
def ofObjectFile (e : ObjectFile.Error) : Failure :=
  { message := e.message, causes := e.causes }

end Failure

end Ebpf.CommandLine

/-
  The command line: `run` executes a code section, `disasm` lists or analyses
  one. The files that a command may read are read beforehand.
-/
import Ebpf.CommandLine.Disassembler

namespace Ebpf.CommandLine

/-- The paths that a run reads. -/
def RunOptions.paths (o : RunOptions) : List String :=
  o.input :: o.packet.toList

/-- The paths that a command reads. -/
def inputPaths : List String → List String
  | "run" :: args => ((RunOptions.ofArgs? args).map RunOptions.paths).getD []
  | "disasm" :: args => ((DisasmOptions.ofArgs? args).map fun o => [o.input]).getD []
  | _ => []

/-- Runs the command that the first argument names. -/
def dispatch (host : Host) : List String → Exit
  | "run" :: args => runCommand host args
  | "disasm" :: args => disasmCommand host args
  | _ => .usage

/-- Why the system refused a file. -/
def FileError.ofSystem : IO.Error → FileError
  | .noFileOrDirectory .. => .notFound
  | .inappropriateType _ 20 _ => .notDirectory
  | .inappropriateType .. => .isDirectory
  | .invalidArgument _ 36 _ => .nameTooLong
  | e => .other (toString e)

/-- Reads a file. -/
def readFile (path : String) : IO (Except FileError (List UInt8)) := do
  try
    return .ok (← IO.FS.readBinFile path).data.toList
  catch e => return .error (.ofSystem e)

/-- Leaves the file that a command wrote; a command whose file is refused has failed. -/
def leaveFile (exit : Exit) : IO Exit := do
  match exit.written with
  | none => return exit
  | some (path, text) =>
    try
      IO.FS.writeFile path text
      return exit
    catch e => return .failed "" { message := (FileError.ofSystem e).message }

/-- Runs a command against the file system. -/
def perform (args : List String) : IO UInt32 := do
  let files ← (inputPaths args).mapM fun path => do return (path, ← readFile path)
  let host : Host :=
    { read := fun path => (files.lookup path).getD (.error .notFound)
      checkWrite := fun _ => .ok () }
  let exit ← leaveFile (dispatch host args)
  IO.print exit.stdout
  IO.eprint exit.stderr
  if exit.code = 2 then IO.eprintln "usage: (run | disasm) [OPTIONS] FILE ..."
  return UInt32.ofNat exit.code

end Ebpf.CommandLine

def main (args : List String) : IO UInt32 :=
  Ebpf.CommandLine.perform args

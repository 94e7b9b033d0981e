/-
  The command that lists a code section or reports its control flow.
-/
import Ebpf.CommandLine.Runner
import Ebpf.FlowGraph.Report
import Ebpf.Listing

namespace Ebpf.CommandLine

/-- What to make of the section. -/
inductive Task where
  | list (showBytes : Bool)
  | analyze (limit : UInt64) (json : Bool)

/-- What the disassembly command can be told. -/
structure DisasmOptions where
  input : String
  source : SectionSource
  bigEndian : Bool
  narrowByteswap : Bool
  task : Task
  out : Option String

namespace DisasmOptions

/-- The options before the command word. -/
def options : Options :=
  [("section", .value), ("skip", .value), ("len", .value), ("big-endian", .flag),
   ("narrow-byteswap", .flag)]

/-- The options of the listing. -/
def listOptions : Options :=
  [("show-bytes", .flag), ("out", .value)]

/-- The options of the analysis. -/
def analyzeOptions : Options :=
  [("max-instr", .value), ("format", .value), ("out", .value)]

/-- The most instructions that an analysis visits when no limit is asked for. -/
def defaultLimit : UInt64 := 100000

/-- Whether a named report format is JSON. -/
def json? : String → Option Bool
  | "text" => some false
  | "json" => some true
  | _ => none

/-- Reads the arguments after the command word; no operands are allowed there. -/
def taskOfArgs? (options : Options) (args : List String) : Option Arguments := do
  let (a, _) ← Arguments.sort? options [] {} args
  if a.operands.isEmpty then some a else none

/-- Reads a command word and its arguments: the task, and the file for its result. -/
def task? (c : Command) : Option (Task × Option String) :=
  match c.word with
  | "list" => do
    let a ← taskOfArgs? listOptions c.args
    let out ← a.optional? "out" Arguments.path?
    some (.list (a.given "show-bytes"), out)
  | "analyze" => do
    let a ← taskOfArgs? analyzeOptions c.args
    let limit ← a.withDefault? "max-instr" Arguments.uint64? defaultLimit
    let json ← a.withDefault? "format" json? false
    let out ← a.optional? "out" Arguments.path?
    some (.analyze limit json, out)
  | _ => none

/-- Reads the command line of the disassembly command. An ELF section brings
its own byte order, so none may be given beside it. -/
def ofArgs? (args : List String) : Option DisasmOptions := do
  let (a, command) ← Arguments.sort? options ["list", "analyze"] {} args
  let input ← a.onlyPath?
  let source ← SectionSource.ofArgs? a
  let (task, out) ← command.bind task?
  let bigEndian := a.given "big-endian"
  if (a.value? "section").isSome && bigEndian then none
  else some { input, source, bigEndian, narrowByteswap := a.given "narrow-byteswap", task, out }

end DisasmOptions

/-- The result of a task on a section. -/
def Task.output (task : Task) (d : Decoder) (o : ByteOrder) (code : List UInt8) : String :=
  match task with
  | .list showBytes =>
    (sweep d o code).foldl (fun text line => text ++ line.render showBytes ++ "\n") ""
  | .analyze limit json =>
    let graph := FlowGraph.analyze d o code limit.toNat
    if json then graph.toJson.pretty ++ "\n" else graph.report

/-- The disassembly command. -/
def disasmCommand (host : Host) (args : List String) : Exit :=
  match DisasmOptions.ofArgs? args with
  | none => .usage
  | some o =>
    match o.source.load (host.read o.input) with
    | .error f => .failed "" f
    | .ok (code, stated) =>
      let order := stated.getD (if o.bigEndian then .big else .little)
      let text := o.task.output { wideByteswap := !o.narrowByteswap } order code
      match o.out with
      | none => { code := 0, stdout := text }
      | some path =>
        match host.checkWrite path with
        | .error e => .failed "" { message := e.message }
        | .ok () => { code := 0, written := some (path, text) }

end Ebpf.CommandLine

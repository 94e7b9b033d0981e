/-
  The command that runs a code section and prints what it returns.
-/
import Ebpf.CommandLine.Section
import Ebpf.Helper.Stock
import Ebpf.Machine.Snapshot
import Ebpf.Machine.Run

namespace Ebpf.CommandLine

/-- What the run command can be told. -/
structure RunOptions where
  input : String
  source : SectionSource
  order : Option ByteOrder
  verbosity : Nat
  maxSteps : UInt64
  stackSize : UInt64
  narrowByteswap : Bool
  packet : Option String
  json : Bool

namespace RunOptions

/-- The options of the run command. -/
def options : Options :=
  [("section", .value), ("skip", .value), ("len", .value), ("endian", .value),
   ("verbose", .counted 'v'), ("max-steps", .value), ("stack-size", .value),
   ("narrow-byteswap", .flag), ("packet", .value), ("json", .flag)]

/-- The budget of a run when none is asked for. -/
def defaultMaxSteps : UInt64 := 10000000

/-- A byte order by name. -/
def order? : String → Option ByteOrder
  | "little" => some .little
  | "big" => some .big
  | _ => none

/-- Reads the command line of the run command. -/
def ofArgs? (args : List String) : Option RunOptions := do
  let (a, _) ← Arguments.sort? options [] {} args
  let input ← a.onlyPath?
  let source ← SectionSource.ofArgs? a
  let order ← a.optional? "endian" order?
  let maxSteps ← a.withDefault? "max-steps" Arguments.uint64? defaultMaxSteps
  let stackSize ← a.withDefault? "stack-size" Arguments.uint64? Stack.defaultSize
  let packet ← a.optional? "packet" Arguments.path?
  some
    { input, source, order, maxSteps, stackSize, packet
      verbosity := a.count "verbose"
      narrowByteswap := a.given "narrow-byteswap"
      json := a.given "json" }

/-- The trace that the command keeps: instructions, and registers if told twice. -/
def trace (o : RunOptions) : Option Trace :=
  if o.verbosity = 0 then none else some { insns := true, regs := 2 ≤ o.verbosity, lines := #[] }

end RunOptions

/-- A trace line as printed: the registers stand under their instruction. -/
def printedLine : TraceLine → String
  | .insn pc i => Text.decimal4 pc ++ ": " ++ i.text ++ "\n"
  | .regs _ regs => "      " ++ regs.text ++ "\n"

/-- The helpers that a program run from the command line can call. -/
def runHelpers : HelperTable UInt64 :=
  HelperTable.empty.register Helper.tracePrintkId (.ofStock "trace_printk" .tracePrintk)

/-- Everything that a run needs from files. -/
structure RunInput where
  code : List UInt8
  order : ByteOrder
  packet : Option Packet

/-- Loads the section, then the packet. -/
def RunOptions.loadInput (o : RunOptions) (host : Host) : Except Failure RunInput :=
  match o.source.load (host.read o.input) with
  | .error f => .error (f.within ("loading " ++ o.input))
  | .ok (code, stated) =>
    let order := o.order.getD (stated.getD .little)
    match o.packet with
    | none => .ok { code, order, packet := none }
    | some path =>
      match host.read path with
      | .error e => .error { message := "reading " ++ path, causes := [e.message] }
      | .ok bytes => .ok { code, order, packet := some (.ofBytes bytes) }

/-- Runs a loaded section and reports. The run always ends, because it has a budget. -/
def RunOptions.execute (o : RunOptions) (input : RunInput) : Exit :=
  let config : Config :=
    { order := input.order, stackSize := o.stackSize, maxSteps := some o.maxSteps }
  let env : Env UInt64 := { helpers := some runHelpers, packet := input.packet, trace := o.trace }
  let after := ((Machine.new config).load input.code).run { wideByteswap := !o.narrowByteswap } env
  let traced := match after.env.trace with
    | none => ""
    | some t => t.lines.foldl (fun text line => text ++ printedLine line) ""
  let dumped := if o.json then traced ++ after.machine.toJson.pretty ++ "\n" else traced
  match after.result with
  | some (.error t) => .failed dumped (.ofTrap t)
  | some (.ok r0) =>
    { code := 0
      stdout := dumped ++ "r0 = " ++ Text.decimal r0.toNat ++ " (" ++ Text.hex0x r0.toNat ++
        ") after " ++ Text.decimal after.machine.steps.toNat ++ " instruction(s)\n" }
  | none => { code := 0, stdout := dumped }

/-- The run command. -/
def runCommand (host : Host) (args : List String) : Exit :=
  match RunOptions.ofArgs? args with
  | none => .usage
  | some o =>
    match o.loadInput host with
    | .error f => .failed "" f
    | .ok input => o.execute input

end Ebpf.CommandLine

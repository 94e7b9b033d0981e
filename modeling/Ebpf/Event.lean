/-
  What a running machine tells the outside: trace lines, which follow the
  instructions one by one, and events, which go to a log.
-/
import Ebpf.Insn.Text

namespace Ebpf

/-! ## Trace lines -/

/-- A line of a trace: an instruction about to run, or the registers after it. -/
inductive TraceLine where
  | insn (pc : Nat) (insn : Insn)
  | regs (pc : Nat) (regs : Registers)
deriving DecidableEq

/-- The text of a trace line, headed by its program counter. -/
def TraceLine.text : TraceLine → String
  | insn pc i => Text.decimal4 pc ++ ": " ++ i.text
  | regs pc r => Text.decimal4 pc ++ ": " ++ r.text

/-- A trace in the making: which kinds of line it takes, and the lines so far. -/
structure Trace where
  insns : Bool
  regs : Bool
  lines : Array TraceLine

namespace Trace

/-- Whether a trace takes a line. -/
def takes (t : Trace) : TraceLine → Bool
  | .insn .. => t.insns
  | .regs .. => t.regs

/-- Adds a line of a kind that the trace takes; other lines are dropped. -/
def add (t : Trace) (line : TraceLine) : Trace :=
  if t.takes line then { t with lines := t.lines.push line } else t

end Trace

/-! ## Events -/

/-- The arguments of a helper call. -/
abbrev Args := Vector UInt64 5

/-- Something worth logging. -/
inductive Event where
  /-- An instruction was decoded and is about to run. -/
  | exec (pc : Nat) (insn : Insn)
  /-- The program ended. -/
  | exit (pc : Nat) (r0 steps : UInt64)
  /-- The machine refused to go on. -/
  | fault (trap : Trap)
  /-- A helper is about to be called. -/
  | helperCall (id : UInt32) (name : String) (args : Args)
  /-- A program printed a text. -/
  | printk (a b c : UInt64) (text : String)
deriving DecidableEq

/-- The text of an event: level, origin, fields and message. -/
def Event.text : Event → String
  | exec pc i =>
    "TRACE ebpf_vm::cpu: pc=" ++ Text.decimal pc ++ " insn=" ++ i.text ++ " | exec"
  | exit pc r0 steps =>
    "DEBUG ebpf_vm::cpu: pc=" ++ Text.decimal pc ++ " r0=" ++ Text.decimal r0.toNat ++
      " steps=" ++ Text.decimal steps.toNat ++ " | exit"
  | fault trap => "WARN ebpf_vm::cpu: trap=" ++ trap.message ++ " | fault"
  | helperCall id name args =>
    "DEBUG ebpf_vm::helpers: id=" ++ Text.decimal id.toNat ++ " name=" ++ name ++ " args=" ++
      Text.bracketed (args.toList.map fun a => Text.decimal a.toNat) ++ " | helper call"
  | printk a b c text =>
    "INFO ebpf::printk: a=" ++ Text.decimal a.toNat ++ " b=" ++ Text.decimal b.toNat ++
      " c=" ++ Text.decimal c.toNat ++ " | " ++ text

end Ebpf

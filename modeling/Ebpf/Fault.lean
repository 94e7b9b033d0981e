/-
  Everything that can stop a program: the causes, the coarse class each of
  them belongs to, their wording, and traps, which pin a fault to the
  instruction that raised it.
-/
import Ebpf.Text.Numeral

namespace Ebpf

/-! ## Causes -/

/-- Coarse families of faults; a machine that faulted remembers only its family. -/
inductive FaultClass where
  /-- The instruction bytes form no instruction word. -/
  | decode
  /-- A register number out of range, or a write to the frame register. -/
  | register
  /-- An access outside the stack or the packet. -/
  | memory
  /-- A well-formed word with no defined operation. -/
  | opcode
  /-- A helper call that could not be made or that failed. -/
  | call
  /-- A jump out of the program, a spent budget, or a machine that has halted. -/
  | control
deriving DecidableEq

/-- Whether a machine can still execute instructions. -/
inductive RunState where
  | running
  | exited
  | faulted (cls : FaultClass)
deriving DecidableEq

/-- The memory that an access went to. -/
inductive Region where
  | stack
  | packet
deriving DecidableEq

/-- The causes for which a machine, or one of its parts, refuses an operation. -/
inductive Fault where
  /-- Fewer bytes are left than the instruction needs. -/
  | truncated (remaining needed : Nat)
  /-- The second word of a wide instruction carries more than an immediate. -/
  | badContinuation (bytes : List UInt8)
  | invalidRegister (reg : UInt8)
  | frameRegisterWrite
  | memoryBounds (region : Region) (addr : Int64) (len : Nat)
  | unsupportedOpcode (opcode : UInt8)
  | unknownHelper (id : UInt32)
  | helper (id : UInt32) (reason : String)
  | noPacket
  | packet (addr : UInt64) (reason : String)
  | jumpOutOfRange (target : Int) (words : Nat)
  | budgetExhausted (limit : UInt64)
  | halted (state : RunState)
deriving DecidableEq

/-! ## Classes and wording -/

/-- The capitalised name of a class. -/
def FaultClass.name : FaultClass → String
  | decode => "Decode"
  | register => "Register"
  | memory => "Memory"
  | opcode => "Opcode"
  | call => "Call"
  | control => "Control"

/-- A run state in words. -/
def RunState.describe : RunState → String
  | running => "Running"
  | exited => "Exited"
  | faulted cls => "Faulted(" ++ cls.name ++ ")"

/-- The name of a region. -/
def Region.name : Region → String
  | stack => "stack"
  | packet => "packet"

namespace Fault

/-- The class of a fault. -/
def cls : Fault → FaultClass
  | truncated .. | badContinuation .. => .decode
  | invalidRegister .. | frameRegisterWrite => .register
  | memoryBounds .. | noPacket | packet .. => .memory
  | unsupportedOpcode .. => .opcode
  | unknownHelper .. | helper .. => .call
  | jumpOutOfRange .. | budgetExhausted .. | halted .. => .control

/-- The wording of a fault. -/
def message : Fault → String
  | truncated remaining needed =>
    "truncated instruction stream: " ++ Text.decimal remaining ++ " byte(s) left, " ++
      Text.decimal needed ++ " needed"
  | badContinuation bytes =>
    "malformed wide-immediate continuation word " ++ Text.bracketed (bytes.map Text.hexByte)
  | invalidRegister reg => "invalid register r" ++ Text.decimal reg.toNat
  | frameRegisterWrite => "write to read-only frame pointer r10"
  | memoryBounds region addr len =>
    region.name ++ " access out of bounds: addr " ++ Text.integer addr.toInt ++ ", len " ++
      Text.decimal len
  | unsupportedOpcode opcode => "unsupported opcode 0x" ++ Text.hexByte opcode
  | unknownHelper id => "call to unknown helper " ++ Text.decimal id.toNat
  | helper id reason => "helper " ++ Text.decimal id.toNat ++ " failed: " ++ reason
  | noPacket => "packet load without an attached packet buffer"
  | packet addr reason => "packet read at " ++ Text.hex0x addr.toNat ++ " failed: " ++ reason
  | jumpOutOfRange target words =>
    "jump target " ++ Text.integer target ++ " outside program of " ++ Text.decimal words ++
      " word(s)"
  | budgetExhausted limit => "instruction budget of " ++ Text.decimal limit.toNat ++ " exhausted"
  | halted state => "machine is " ++ state.describe ++ ", no further instructions execute"

/-- The reason that a fault was given from outside the machine, if it has one. -/
def reason? : Fault → Option String
  | helper _ reason => some reason
  | packet _ reason => some reason
  | _ => none

end Fault

/-! ## Traps -/

/-- A fault, the instruction index at which it arose, and the word found there
when the program holds all of it. -/
structure Trap where
  pc : Nat
  word : Option (List UInt8)
  fault : Fault
deriving DecidableEq

/-- The wording of a trap. -/
def Trap.message (t : Trap) : String :=
  "fault at pc " ++ Text.decimal t.pc ++ " [" ++
    (match t.word with
      | some bytes => Text.hexBytes " " bytes
      | none => "no bytes") ++
    "]: " ++ t.fault.message

end Ebpf

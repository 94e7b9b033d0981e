/-
  The machine: a program counter in words, the registers, the stack, the run
  state, a count of executed instructions, the configuration and the program.
-/
import Ebpf.Registers
import Ebpf.Stack
import Ebpf.Insn
import Ebpf.Word

namespace Ebpf

/-- What is fixed when a machine is made. The budget bounds whole runs, not single steps. -/
structure Config where
  order : ByteOrder := .little
  stackSize : UInt64 := Stack.defaultSize
  maxSteps : Option UInt64 := none
deriving DecidableEq

/-- A machine. -/
structure Machine where
  pc : Nat
  regs : Registers
  stack : Stack
  state : RunState
  steps : UInt64
  config : Config
  program : Array UInt8
deriving DecidableEq

namespace Machine

/-- Back to the first instruction: registers and stack zero, the frame
register at the top of the stack. -/
def reset (m : Machine) : Machine :=
  { m with
    pc := 0
    regs := Registers.zero.put Reg.frame (UInt64.ofNat m.stack.size)
    stack := Stack.zeros m.stack.size
    state := .running
    steps := 0 }

/-- A machine without a program. -/
def new (config : Config) : Machine :=
  reset
    { pc := 0
      regs := Registers.zero
      stack := Stack.zeros config.stackSize.toNat
      state := .running
      steps := 0
      config
      program := #[] }

/-- Installs a program and resets. -/
def load (m : Machine) (program : List UInt8) : Machine :=
  reset { m with program := program.toArray }

/-- What decides which instruction stands where: the program, and the byte
order of the configuration. No instruction changes it. -/
def code (m : Machine) : Array UInt8 × Config :=
  (m.program, m.config)

/-- The length of the program in whole words. -/
def programWords (m : Machine) : Nat :=
  m.program.size / Word.size

/-- The word at an index and the one after it, as far as the program goes. No
instruction takes more room. -/
def codeAt (m : Machine) (pc : Nat) : List UInt8 :=
  (m.program.extract (Word.size * pc) (Word.size * (pc + 2))).toList

/-- The bytes of the word at an index, if the program holds all of them. Offsets are exact here. In
64 bits, the end of the word at index `2 ^ 61 - 1` wraps to zero, and then there is no such word
either; arithmetic that stops on overflow is not modelled. -/
def wordAt? (m : Machine) (pc : Nat) : Option (List UInt8) :=
  let bytes := (m.codeAt pc).take Word.size
  if bytes.length = Word.size then some bytes else none

end Machine

end Ebpf

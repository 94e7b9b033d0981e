/-
  The effect of one instruction on a machine and its surroundings, apart from
  the program counter.
-/
import Ebpf.Alu
import Ebpf.Helper
import Ebpf.Machine
import Ebpf.Packet

namespace Ebpf

/-! ## Surroundings -/

/-- What a machine works with but does not own. Lines and events are kept only
if somebody asked for them. -/
structure Env (σ : Type) where
  helpers : Option (HelperTable σ) := none
  packet : Option Packet := none
  trace : Option Trace := none
  log : Option (Array Event) := none

namespace Env

variable {σ : Type}

/-- Hands a line to the trace. -/
@[inline]
def traceLine (env : Env σ) (line : TraceLine) : Env σ :=
  match env.trace with
  | none => env
  | some t => { env with trace := some (t.add line) }

/-- Hands events to the log. -/
@[inline]
def record (env : Env σ) (events : List Event) : Env σ :=
  match env.log with
  | none => env
  | some log => { env with log := some (log.appendList events) }

end Env

/-- A result, with the machine and the surroundings after it. -/
structure Outcome (σ α : Type) where
  result : α
  machine : Machine
  env : Env σ

/-- Where the program counter goes after an instruction. -/
inductive Flow where
  /-- To the instruction that follows. -/
  | next
  /-- To `pc + 1 + off`. -/
  | branch (off : Int16)
  /-- Nowhere: the program ends. -/
  | exit
deriving DecidableEq

namespace Machine

variable {σ : Type}

/-! ## Operands -/

/-- The second operand of an arithmetic or jump instruction; an immediate is
cut to the width of the operation. -/
def operand (m : Machine) (i : Insn) (source : Source) (width : Width) : UInt64 :=
  match source, width with
  | .reg, _ => m.regs.get i.src
  | .imm, .w64 => i.imm.toUInt64
  | .imm, .w32 => i.imm.toUInt64.toUInt32.toUInt64

/-- The value that a store writes. -/
def storeOperand (m : Machine) (i : Insn) : Source → UInt64
  | .reg => m.regs.get i.src
  | .imm => i.imm.toUInt64

/-- A stack address: a register plus an offset, wrapped to 64 signed bits. -/
def address (m : Machine) (base : Reg) (off : Int16) : Int64 :=
  (m.regs.get base).toInt64 + off.toInt64

/-- A packet address: the immediate, plus the source register if indirect. -/
def packetAddress (m : Machine) (i : Insn) (indirect : Bool) : Int64 :=
  if indirect then (m.regs.get i.src).toInt64 + i.imm else i.imm

/-! ## Writes -/

/-- What came of an attempt to change a machine. An attempt that is refused
leaves the machine as it was. -/
structure Attempt where
  fault? : Option Fault
  machine : Machine

/-- Writes a register on the program's behalf; the frame register is refused. -/
def writeRegister (m : Machine) (r : Reg) (v : UInt64) : Attempt :=
  if r = Reg.frame then { fault? := some .frameRegisterWrite, machine := m }
  else { fault? := none, machine := { m with regs := m.regs.put r v } }

/-- Writes a number of the given size to the stack. -/
def storeCell (m : Machine) (addr : Int64) (size : Size) (v : UInt64) : Attempt :=
  if InBounds addr size.bytes m.stack.size then
    { fault? := none
      machine := { m with stack := m.stack.put m.config.order addr.toInt.toNat size.bytes v } }
  else { fault? := some (.memoryBounds .stack addr size.bytes), machine := m }

/-! ## Data instructions -/

/-- Reads a number of the given size from the stack. -/
def loadCell (m : Machine) (addr : Int64) (size : Size) : Except Fault UInt64 :=
  m.stack.load m.config.order addr size.bytes

/-- Loads from the stack into the destination register. The access is checked
before the register. -/
def execLoad (m : Machine) (i : Insn) (size : Size) : Attempt :=
  match m.loadCell (m.address i.src i.off) size with
  | .error e => { fault? := some e, machine := m }
  | .ok v => m.writeRegister i.dst v

/-- Adds the source register to a stack cell, wrapping at the cell's size. -/
def execAtomicAdd (m : Machine) (i : Insn) (size : Size) : Attempt :=
  match m.loadCell (m.address i.dst i.off) size with
  | .error e => { fault? := some e, machine := m }
  | .ok v => m.storeCell (m.address i.dst i.off) size (v + m.regs.get i.src)

/-- Loads from the packet into `r0`. -/
def execLoadPacket (m : Machine) (packet : Option Packet) (i : Insn) (size : Size)
    (indirect : Bool) : Attempt :=
  match packet with
  | none => { fault? := some .noPacket, machine := m }
  | some p =>
    let addr := m.packetAddress i indirect
    if InBounds addr size.bytes p.length then
      match p.read addr.toUInt64 size.bytes with
      | .error reason => { fault? := some (.packet addr.toUInt64 reason), machine := m }
      | .ok bytes => m.writeRegister Reg.result (m.config.order.read bytes)
    else { fault? := some (.memoryBounds .packet addr size.bytes), machine := m }

/-! ## All instructions -/

/-- The outcome of an instruction that falls through unless it is refused. -/
def Attempt.settle (a : Attempt) (env : Env σ) : Outcome σ (Except Fault Flow) :=
  match a.fault? with
  | none => { result := .ok .next, machine := a.machine, env }
  | some e => { result := .error e, machine := a.machine, env }

/-- Calls the helper that the immediate names, with `r1` to `r5`, and puts its
result into `r0`. -/
def execCall (env : Env σ) (m : Machine) (i : Insn) : Outcome σ (Except Fault Flow) :=
  let id := i.imm.toUInt64.toUInt32
  match env.helpers with
  | none => { result := .error (.unknownHelper id), machine := m, env }
  | some table =>
    let call := table.call id m.regs.args m.stack
    let env := { env with helpers := some call.table }.record call.events
    let m := { m with stack := call.stack }
    match call.result with
    | .error e => { result := .error e, machine := m, env }
    | .ok v => (m.writeRegister Reg.result v).settle env

/-- Executes an instruction. -/
def exec (env : Env σ) (m : Machine) (i : Insn) : Outcome σ (Except Fault Flow) :=
  match i.op with
  | .alu op width source =>
    let v := op.execute width (m.regs.get i.dst) (m.operand i source width)
    (m.writeRegister i.dst v).settle env
  | .swap target width =>
    let v := width.convert m.config.order target (m.regs.get i.dst)
    (m.writeRegister i.dst v).settle env
  | .loadImm64 => (m.writeRegister i.dst i.imm.toUInt64).settle env
  | .loadPacket size indirect => (m.execLoadPacket env.packet i size indirect).settle env
  | .load size => (m.execLoad i size).settle env
  | .store size source =>
    (m.storeCell (m.address i.dst i.off) size (m.storeOperand i source)).settle env
  | .atomicAdd size => (m.execAtomicAdd i size).settle env
  | .call => execCall env m i
  | .ja => { result := .ok (.branch i.off), machine := m, env }
  | .jmp cond width source =>
    let taken := cond.holds width (m.regs.get i.dst) (m.operand i source width)
    { result := .ok (if taken then .branch i.off else .next), machine := m, env }
  | .exit => { result := .ok .exit, machine := m, env }

/-! ## What an instruction leaves alone -/

@[simp] theorem code_writeRegister (m : Machine) (r : Reg) (v : UInt64) :
    (m.writeRegister r v).machine.code = m.code := by
  unfold writeRegister
  split <;> rfl

@[simp] theorem code_storeCell (m : Machine) (addr : Int64) (size : Size) (v : UInt64) :
    (m.storeCell addr size v).machine.code = m.code := by
  unfold storeCell
  split <;> rfl

@[simp] theorem code_execLoad (m : Machine) (i : Insn) (size : Size) :
    (m.execLoad i size).machine.code = m.code := by
  unfold execLoad
  split <;> simp

@[simp] theorem code_execAtomicAdd (m : Machine) (i : Insn) (size : Size) :
    (m.execAtomicAdd i size).machine.code = m.code := by
  unfold execAtomicAdd
  split <;> simp

@[simp] theorem code_execLoadPacket (m : Machine) (packet : Option Packet) (i : Insn) (size : Size)
    (indirect : Bool) : (m.execLoadPacket packet i size indirect).machine.code = m.code := by
  unfold execLoadPacket
  split
  · rfl
  · dsimp only
    split
    · split <;> simp
    · rfl

@[simp] theorem machine_settle (a : Attempt) (env : Env σ) :
    (a.settle env).machine = a.machine := by
  unfold Attempt.settle
  split <;> rfl

@[simp] theorem code_execCall (env : Env σ) (m : Machine) (i : Insn) :
    (execCall env m i).machine.code = m.code := by
  unfold execCall
  dsimp only
  split
  · rfl
  · split
    · rfl
    · simp only [machine_settle, code_writeRegister]
      rfl

@[simp] theorem code_exec (env : Env σ) (m : Machine) (i : Insn) :
    (exec env m i).machine.code = m.code := by
  unfold exec
  split <;> simp

end Machine

end Ebpf

/-
  Single steps. A step fetches, decodes and executes one instruction and then
  moves the program counter. Any fault turns into a trap, which stops the
  machine; a machine that has stopped traps on every further step and stays as
  it is.

  `code_step` says that no step changes the program or the configuration.
-/
import Ebpf.Insn.Decode
import Ebpf.Machine.Exec

namespace Ebpf

/-- The result of a step that did not trap. -/
inductive Status where
  | running
  /-- The program ended; carries `r0`. -/
  | exited (r0 : UInt64)
deriving DecidableEq

namespace Machine

variable {σ : Type}

/-! ## Traps -/

/-- The run state after a fault: a machine that had stopped keeps its state. -/
def stateAfter (m : Machine) : Fault → RunState
  | .halted _ => m.state
  | fault => .faulted fault.cls

/-- Stops a machine with a fault at its program counter. -/
def trap {α : Type} (env : Env σ) (m : Machine) (fault : Fault) : Outcome σ (Except Trap α) :=
  let t : Trap := { pc := m.pc, word := m.wordAt? m.pc, fault }
  { result := .error t
    machine := { m with state := m.stateAfter fault }
    env := env.record [.fault t] }

/-! ## Steps -/

/-- Moves the program counter after an instruction of `words` words, and counts the step. -/
def advance (env : Env σ) (m : Machine) (words : Nat) : Flow → Outcome σ (Except Trap Status)
  | .next =>
    { result := .ok .running
      machine := { m with pc := m.pc + words, steps := m.steps + 1 }
      env }
  | .branch off =>
    let target : Int := m.pc + 1 + off.toInt
    if 0 ≤ target ∧ target < m.programWords then
      { result := .ok .running
        machine := { m with pc := target.toNat, steps := m.steps + 1 }
        env }
    else trap env m (.jumpOutOfRange target m.programWords)
  | .exit =>
    let m := { m with steps := m.steps + 1, state := .exited }
    { result := .ok (.exited (m.regs.get Reg.result))
      machine := m
      env := env.record [.exit m.pc (m.regs.get Reg.result) m.steps] }

/-- Executes a decoded instruction: the trace sees it before it runs, and the
registers after it ran without a fault. -/
def stepSlot (env : Env σ) (m : Machine) (slot : Slot) : Outcome σ (Except Trap Status) :=
  let pc := m.pc
  let env := (env.record [.exec pc slot.insn]).traceLine (.insn pc slot.insn)
  let after := exec env m slot.insn
  match after.result with
  | .error fault => trap after.env after.machine fault
  | .ok flow =>
    advance (after.env.traceLine (.regs pc after.machine.regs)) after.machine slot.words flow

/-- What decoding gives at a word index. -/
def fetch (d : Decoder) (m : Machine) (pc : Nat) : Except Fault Slot :=
  d.decode m.config.order (m.codeAt pc)

/-- Fetching decodes the program from the word on, however much of it follows. -/
theorem fetch_eq_decode (d : Decoder) (m : Machine) (pc : Nat) :
    m.fetch d pc = d.decode m.config.order (m.program.toList.drop (Word.size * pc)) := by
  have hroom : Word.size * (pc + 2) - Word.size * pc = 2 * Word.size := by
    rw [Nat.mul_add, Nat.add_sub_cancel_left, Nat.mul_comm]
  rw [fetch, codeAt, Array.toList_extract, List.extract_eq_take_drop, hroom, Decoder.decode_take]

/-- Takes a step with what was fetched at the program counter. -/
def stepFetched (env : Env σ) (m : Machine) (fetched : Except Fault Slot) :
    Outcome σ (Except Trap Status) :=
  match m.state with
  | .running =>
    match fetched with
    | .error fault => trap env m fault
    | .ok slot => stepSlot env m slot
  | state => trap env m (.halted state)

/-- Executes the instruction at the program counter. -/
def step (d : Decoder) (env : Env σ) (m : Machine) : Outcome σ (Except Trap Status) :=
  stepFetched env m (m.fetch d m.pc)

/-! ## What a step leaves alone -/

@[simp] theorem code_trap {α : Type} (env : Env σ) (m : Machine) (fault : Fault) :
    (trap env m fault : Outcome σ (Except Trap α)).machine.code = m.code := rfl

@[simp] theorem code_advance (env : Env σ) (m : Machine) (words : Nat) (flow : Flow) :
    (advance env m words flow).machine.code = m.code := by
  cases flow with
  | next => rfl
  | branch off =>
    unfold advance
    dsimp only
    split <;> rfl
  | exit => rfl

@[simp] theorem code_stepSlot (env : Env σ) (m : Machine) (slot : Slot) :
    (stepSlot env m slot).machine.code = m.code := by
  unfold stepSlot
  dsimp only
  split <;> simp

theorem code_stepFetched (env : Env σ) (m : Machine) (fetched : Except Fault Slot) :
    (stepFetched env m fetched).machine.code = m.code := by
  unfold stepFetched
  split
  · cases fetched <;> simp
  · simp

theorem code_step (d : Decoder) (env : Env σ) (m : Machine) :
    (step d env m).machine.code = m.code :=
  code_stepFetched env m _

/-- What is fetched depends on the program and the byte order alone. -/
theorem fetch_congr (d : Decoder) {m m' : Machine} (h : m'.code = m.code) :
    m'.fetch d = m.fetch d := by
  have hp : m'.program = m.program := congrArg Prod.fst h
  have hc : m'.config = m.config := congrArg Prod.snd h
  funext pc
  simp only [fetch, codeAt, hp, hc]

end Machine

end Ebpf

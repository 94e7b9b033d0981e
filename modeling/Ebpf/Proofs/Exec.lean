/-
  What one instruction can do. `Attempt.Effect` lists the outcomes of an
  attempt to change a machine: it is refused and nothing changed, or it wrote
  one register other than the frame register, or one span of the stack.
  `exec_effect` lists the outcomes of an instruction: those of an attempt, a
  decision about the program counter alone, or what a helper replied. All that
  is said below about what an instruction keeps is read off these two lists.
-/
import Ebpf.Machine.Exec
import Ebpf.Proofs.HelperTable

namespace Ebpf

variable {σ : Type}

/-! ## Surroundings -/

namespace Env

@[simp] theorem helpers_record (env : Env σ) (events : List Event) :
    (env.record events).helpers = env.helpers := by
  unfold record
  split <;> rfl

@[simp] theorem packet_record (env : Env σ) (events : List Event) :
    (env.record events).packet = env.packet := by
  unfold record
  split <;> rfl

@[simp] theorem helpers_traceLine (env : Env σ) (line : TraceLine) :
    (env.traceLine line).helpers = env.helpers := by
  unfold traceLine
  split <;> rfl

@[simp] theorem packet_traceLine (env : Env σ) (line : TraceLine) :
    (env.traceLine line).packet = env.packet := by
  unfold traceLine
  split <;> rfl

/-- Every helper within reach replies to every call as `P` says. -/
def EveryReply (P : Stack → Helper.Reply σ → Prop) (env : Env σ) : Prop :=
  ∀ table, env.helpers = some table → table.EveryReply P

theorem EveryReply.of_table {P : Stack → Helper.Reply σ → Prop} {env : Env σ}
    {table : HelperTable σ} (ht : env.helpers = some table) (h : table.EveryReply P) :
    env.EveryReply P := by
  intro t ht'
  rw [ht] at ht'
  cases ht'
  exact h

theorem EveryReply.of_helpers_eq {P : Stack → Helper.Reply σ → Prop} {env env' : Env σ}
    (h : env.EveryReply P) (he : env'.helpers = env.helpers) : env'.EveryReply P := by
  intro table ht
  exact h table (he ▸ ht)

/-- The surroundings after a call through their table. -/
def afterCall (env : Env σ) (call : HelperTable.Call σ) : Env σ :=
  { env with helpers := some call.table }.record call.events

@[simp] theorem helpers_afterCall (env : Env σ) (call : HelperTable.Call σ) :
    (env.afterCall call).helpers = some call.table := by
  rw [afterCall, helpers_record]

theorem EveryReply.afterCall {P : Stack → Helper.Reply σ → Prop} {env : Env σ}
    {table : HelperTable σ} (h : env.EveryReply P) (ht : env.helpers = some table) (id : UInt32)
    (args : Args) (stack : Stack) : (env.afterCall (table.call id args stack)).EveryReply P := by
  exact .of_table (helpers_afterCall _ _) ((h table ht).call id args stack)

end Env

theorem Reg.frame_ne_result : Reg.frame ≠ Reg.result := by decide

namespace Machine

/-! ## Attempts -/

/-- What an attempt on a machine can come to. -/
inductive Attempt.Effect (m : Machine) : Attempt → Prop
  | refused (f : Fault) : Effect m { fault? := some f, machine := m }
  | register {r : Reg} (hr : r ≠ Reg.frame) (v : UInt64) :
      Effect m { fault? := none, machine := { m with regs := m.regs.put r v } }
  | cell {addr : Int64} {len : Nat} (hb : InBounds addr len m.stack.size) (v : UInt64) :
      Effect m { fault? := none
                 machine := { m with
                   stack := m.stack.put m.config.order addr.toInt.toNat len v } }

theorem effect_writeRegister (m : Machine) (r : Reg) (v : UInt64) :
    (m.writeRegister r v).Effect m := by
  unfold writeRegister
  split
  · exact .refused _
  · next hr => exact .register hr v

theorem effect_storeCell (m : Machine) (addr : Int64) (size : Size) (v : UInt64) :
    (m.storeCell addr size v).Effect m := by
  unfold storeCell
  split
  · next hb => exact .cell hb v
  · exact .refused _

theorem effect_execLoad (m : Machine) (i : Insn) (size : Size) : (m.execLoad i size).Effect m := by
  unfold execLoad
  split
  · exact .refused _
  · exact effect_writeRegister _ _ _

theorem effect_execAtomicAdd (m : Machine) (i : Insn) (size : Size) :
    (m.execAtomicAdd i size).Effect m := by
  unfold execAtomicAdd
  split
  · exact .refused _
  · exact effect_storeCell _ _ _ _

theorem effect_execLoadPacket (m : Machine) (packet : Option Packet) (i : Insn) (size : Size)
    (indirect : Bool) : (m.execLoadPacket packet i size indirect).Effect m := by
  unfold execLoadPacket
  split
  · exact .refused _
  · dsimp only
    split
    · split
      · exact .refused _
      · exact effect_writeRegister _ _ _
    · exact .refused _

/-! ## Instructions -/

/-- What an instruction can come to. A helper that was called leaves a stack
behind, whether it failed or not; only if it did not fail is `r0` written. -/
inductive ExecEffect (env : Env σ) (m : Machine) : Outcome σ (Except Fault Flow) → Prop
  | attempt {a : Attempt} (h : a.Effect m) : ExecEffect env m (a.settle env)
  | flow (f : Flow) : ExecEffect env m { result := .ok f, machine := m, env }
  | callFailed {table : HelperTable σ} {id : UInt32} {f : Fault} (ht : env.helpers = some table)
      (hr : (table.call id m.regs.args m.stack).result = .error f) :
      ExecEffect env m
        { result := .error f
          machine := { m with stack := (table.call id m.regs.args m.stack).stack }
          env := env.afterCall (table.call id m.regs.args m.stack) }
  | callReturned {table : HelperTable σ} {id : UInt32} {v : UInt64} (ht : env.helpers = some table)
      (hr : (table.call id m.regs.args m.stack).result = .ok v) :
      ExecEffect env m
        { result := .ok .next
          machine := { m with
            regs := m.regs.put Reg.result v
            stack := (table.call id m.regs.args m.stack).stack }
          env := env.afterCall (table.call id m.regs.args m.stack) }

theorem effect_execCall (env : Env σ) (m : Machine) (i : Insn) :
    ExecEffect env m (execCall env m i) := by
  unfold execCall
  dsimp only
  split
  · exact .attempt (.refused (.unknownHelper i.imm.toUInt64.toUInt32))
  · next table ht =>
    split
    · next f hr => exact .callFailed ht hr
    · next v hr => exact .callReturned ht hr

theorem exec_effect (env : Env σ) (m : Machine) (i : Insn) : ExecEffect env m (exec env m i) := by
  unfold exec
  cases i.op with
  | alu op width source => exact .attempt (effect_writeRegister _ _ _)
  | swap target width => exact .attempt (effect_writeRegister _ _ _)
  | loadImm64 => exact .attempt (effect_writeRegister _ _ _)
  | loadPacket size indirect => exact .attempt (effect_execLoadPacket _ _ _ _ _)
  | load size => exact .attempt (effect_execLoad _ _ _)
  | store size source => exact .attempt (effect_storeCell _ _ _ _)
  | atomicAdd size => exact .attempt (effect_execAtomicAdd _ _ _)
  | ja => exact .flow _
  | jmp cond width source => exact .flow _
  | call => exact effect_execCall env m i
  | exit => exact .flow _

/-! ## What an instruction keeps -/

@[simp] theorem env_settle (a : Attempt) (env : Env σ) : (a.settle env).env = env := by
  unfold Attempt.settle
  split <;> rfl

theorem result_settle_eq_error_iff {a : Attempt} {env : Env σ} {f : Fault} :
    (a.settle env).result = .error f ↔ a.fault? = some f := by
  unfold Attempt.settle
  split
  · next h => simp [h]
  · next h => simp [h]

theorem result_settle_eq_ok_iff {a : Attempt} {env : Env σ} {flow : Flow} :
    (a.settle env).result = .ok flow ↔ a.fault? = none ∧ flow = .next := by
  unfold Attempt.settle
  split
  · next h => simp [h, eq_comm]
  · next h => simp [h]

namespace ExecEffect

variable {env : Env σ} {m : Machine} {o : Outcome σ (Except Fault Flow)}

/-- An instruction touches registers and stack only. -/
theorem confined (h : ExecEffect env m o) :
    o.machine = { m with regs := o.machine.regs, stack := o.machine.stack } := by
  cases h with
  | attempt h =>
    rw [machine_settle]
    cases h <;> rfl
  | flow f => rfl
  | callFailed ht hr => rfl
  | callReturned ht hr => rfl

/-- No instruction writes the frame register. -/
theorem frame (h : ExecEffect env m o) :
    o.machine.regs.get Reg.frame = m.regs.get Reg.frame := by
  cases h with
  | attempt h =>
    rw [machine_settle]
    cases h with
    | refused f => rfl
    | register hr v => exact Registers.get_put_of_ne _ _ (Ne.symm hr)
    | cell hb v => rfl
  | flow f => rfl
  | callFailed ht hr => rfl
  | callReturned ht hr => exact Registers.get_put_of_ne _ _ Reg.frame_ne_result

theorem size_stack (h : ExecEffect env m o) (henv : env.EveryReply Helper.KeepsStackSize) :
    o.machine.stack.size = m.stack.size := by
  cases h with
  | attempt h =>
    rw [machine_settle]
    cases h with
    | refused f => rfl
    | register hr v => rfl
    | cell hb v => exact Stack.size_overwrite _ _ _
  | flow f => rfl
  | callFailed ht hr => exact (henv _ ht).size_call _ _ _
  | callReturned ht hr => exact (henv _ ht).size_call _ _ _

/-- An instruction that is refused changes nothing, unless a helper did before it failed. -/
theorem machine_of_error (h : ExecEffect env m o) (henv : env.EveryReply Helper.FailsCleanly)
    {f : Fault} (hf : o.result = .error f) : o.machine = m := by
  cases h with
  | attempt h =>
    rw [machine_settle]
    rw [result_settle_eq_error_iff] at hf
    cases h with
    | refused f => rfl
    | register hr v => cases hf
    | cell hb v => cases hf
  | flow f => rfl
  | callFailed ht hr =>
    have hs := (henv _ ht).stack_call_of_error hr
    rw [hs]
  | callReturned ht hr => cases hf

/-- An instruction that does not fall through changes nothing. -/
theorem eq_of_flow (h : ExecEffect env m o) {flow : Flow} (hf : o.result = .ok flow)
    (hne : flow ≠ .next) : o.machine = m ∧ o.env = env := by
  cases h with
  | attempt h =>
    rw [result_settle_eq_ok_iff] at hf
    exact absurd hf.2 hne
  | flow f => exact ⟨rfl, rfl⟩
  | callFailed ht hr => cases hf
  | callReturned ht hr =>
    cases hf
    exact absurd rfl hne

theorem everyReply (h : ExecEffect env m o) {P : Stack → Helper.Reply σ → Prop}
    (henv : env.EveryReply P) : o.env.EveryReply P := by
  cases h with
  | attempt h =>
    rw [env_settle]
    exact henv
  | flow f => exact henv
  | callFailed ht hr => exact henv.afterCall ht _ _ _
  | callReturned ht hr => exact henv.afterCall ht _ _ _

end ExecEffect

/-! ## Instructions one after the other -/

/-- Executes instructions one after the other, as long as each falls through. -/
def execAll (env : Env σ) (m : Machine) : List Insn → Outcome σ (Except Fault Flow)
  | [] => { result := .ok .next, machine := m, env }
  | i :: rest =>
    let after := exec env m i
    match after.result with
    | .ok .next => execAll after.env after.machine rest
    | _ => after

theorem execAll_cons_of_next {env : Env σ} {m : Machine} {i : Insn}
    (h : (exec env m i).result = .ok .next) (rest : List Insn) :
    execAll env m (i :: rest) = execAll (exec env m i).env (exec env m i).machine rest := by
  rw [execAll]
  simp only [h]

theorem execAll_cons_of_error {env : Env σ} {m : Machine} {i : Insn} {f : Fault}
    (h : (exec env m i).result = .error f) (rest : List Insn) :
    execAll env m (i :: rest) = exec env m i := by
  rw [execAll]
  simp only [h]

end Machine

end Ebpf

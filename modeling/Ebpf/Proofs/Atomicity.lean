/-
  A step that traps is atomic: of the whole machine only the run state changes,
  and the trap tells where the machine stands and which word lies there. The
  one way around this is a helper that writes to the stack and then fails, so
  the helpers are asked to fail cleanly.

  `step_error_atomic` is the statement. It covers every point at which a step
  can fail: decoding, the instruction itself, and the check of a jump's target,
  which comes only after the instruction was executed.
-/
import Ebpf.Proofs.StepFaults

namespace Ebpf

variable {σ : Type}

/-! ## The word of a trap -/

namespace Machine

theorem wordAt?_eq (m : Machine) (pc : Nat) :
    m.wordAt? pc =
      if Word.size * pc + Word.size ≤ m.program.size then
        some ((m.program.toList.drop (Word.size * pc)).take Word.size)
      else none := by
  have hbytes : (m.codeAt pc).take Word.size =
      (m.program.toList.drop (Word.size * pc)).take Word.size := by
    have hroom : Word.size * (pc + 2) - Word.size * pc = 2 * Word.size := by
      rw [Nat.mul_add, Nat.add_sub_cancel_left, Nat.mul_comm]
    rw [codeAt, Array.toList_extract, List.extract_eq_take_drop, hroom, List.take_take]
    rfl
  have hlen : ((m.program.toList.drop (Word.size * pc)).take Word.size).length = Word.size ↔
      Word.size * pc + Word.size ≤ m.program.size := by
    rw [List.length_take, List.length_drop, Array.length_toList]
    unfold Word.size
    omega
  unfold wordAt?
  dsimp only
  rw [hbytes]
  by_cases hfit : Word.size * pc + Word.size ≤ m.program.size
  · rw [if_pos hfit, if_pos (hlen.mpr hfit)]
  · rw [if_neg hfit, if_neg (mt hlen.mp hfit)]

/-! ## The run state of a trap -/

theorem StepFaults.ne_halted {d : Decoder} {env : Env σ} {m : Machine} {f : Fault}
    (h : m.StepFaults d env f) (s : RunState) : f ≠ .halted s := by
  rintro rfl
  cases h with
  | undecoded hd => cases (decode_effect _ _ _).ofDecoding hd
  | refused hd hf => cases hf

theorem stateAfter_of_ne_halted (m : Machine) {f : Fault} (hf : ∀ s, f ≠ .halted s) :
    m.stateAfter f = .faulted f.cls := by
  cases f with
  | halted s => exact absurd rfl (hf s)
  | _ => rfl

/-! ## Failing steps -/

namespace StepEffect

variable {d : Decoder} {env : Env σ} {m : Machine} {o : Outcome σ (Except Trap Status)} {t : Trap}

/-- A failing step is a trap of the machine as it was before the step. -/
theorem eq_trap (heff : StepEffect d env m o) (henv : env.EveryReply Helper.FailsCleanly)
    (h : o.result = .error t) :
    ∃ env', o = trap env' m t.fault ∧
      (m.state ≠ .running → t.fault = .halted m.state) := by
  cases heff with
  | halted hm =>
    cases h
    exact ⟨env, rfl, fun _ => rfl⟩
  | undecoded hm hd =>
    cases h
    exact ⟨env, rfl, fun hne => absurd hm hne⟩
  | @refused slot f hm hd he =>
    cases h
    have hclean : (env.announce m.pc slot.insn).EveryReply Helper.FailsCleanly :=
      henv.of_helpers_eq (Env.helpers_announce _ _ _)
    have hmach := (execAt_effect env m slot.insn).machine_of_error hclean he
    rw [hmach]
    exact ⟨_, rfl, fun hne => absurd hm hne⟩
  | stray hm hd he ht =>
    cases h
    exact ⟨_, rfl, fun hne => absurd hm hne⟩
  | next hm hd he => cases h
  | branch hm hd he ht => cases h
  | exit hm hd he => cases h

end StepEffect

/-- A failing step is atomic. It leaves program counter, registers, stack, step count,
configuration and program as they were. A running machine is faulted with the class of the fault;
one that had stopped keeps its state too, and the fault names that state. The trap carries the
program counter and the word that lies there, if the program holds all of it. -/
theorem step_error_atomic (d : Decoder) (env : Env σ) (m : Machine) (t : Trap)
    (henv : env.EveryReply Helper.FailsCleanly) (h : (step d env m).result = .error t) :
    (m.state = .running → (step d env m).machine = { m with state := .faulted t.fault.cls }) ∧
      (m.state ≠ .running → (step d env m).machine = m ∧ t.fault = .halted m.state) ∧
      t.pc = m.pc ∧
      t.word =
        if Word.size * m.pc + Word.size ≤ m.program.size then
          some ((m.program.toList.drop (Word.size * m.pc)).take Word.size)
        else none := by
  obtain ⟨env', htrap, hhalted⟩ := (step_effect d env m).eq_trap henv h
  have hmach : (step d env m).machine = { m with state := m.stateAfter t.fault } := by
    rw [htrap]
    rfl
  refine ⟨fun hm => ?_, fun hm => ?_, ?_⟩
  · have hne := ((step_effect d env m).stepFaults hm h).ne_halted
    rw [hmach, stateAfter_of_ne_halted m hne]
  · have hf := hhalted hm
    refine ⟨?_, hf⟩
    rw [hmach, hf]
    rfl
  · rw [htrap] at h
    rw [← wordAt?_eq]
    cases t
    cases h
    exact ⟨rfl, rfl⟩

/-- A helper asked to double eight bytes of a four-byte stack fails, and the machine with it. -/
theorem step_error_atomic_double :
    Env.EveryReply Helper.FailsCleanly
        { helpers := some (HelperTable.empty.register 1 (.ofStock "double" .double)) } ∧
      (step {} { helpers := some (HelperTable.empty.register 1 (.ofStock "double" .double)) }
          ((Machine.new { stackSize := 4 }).load [0x85, 0, 0, 0, 1, 0, 0, 0])).machine =
        { (Machine.new { stackSize := 4 }).load [0x85, 0, 0, 0, 1, 0, 0, 0] with
          state := .faulted .call } := by
  have henv : Env.EveryReply Helper.FailsCleanly
      { helpers := some (HelperTable.empty.register 1 (.ofStock "double" .double)) } :=
    .of_table rfl ((HelperTable.EveryReply.empty _).register 1 (Helper.Stock.failsCleanly .double))
  have h : (step {} { helpers := some (HelperTable.empty.register 1 (.ofStock "double" .double)) }
      ((Machine.new { stackSize := 4 }).load [0x85, 0, 0, 0, 1, 0, 0, 0])).result =
        .error { pc := 0
                 word := some [0x85, 0, 0, 0, 1, 0, 0, 0]
                 fault := .helper 1 "stack access out of bounds: addr 0, len 8" } := rfl
  exact ⟨henv, (step_error_atomic _ _ _ _ henv h).1 rfl⟩

end Machine

end Ebpf

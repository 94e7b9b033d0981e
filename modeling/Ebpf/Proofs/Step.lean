/-
  What one step can do. `step_effect` lists the outcomes: a machine that has
  stopped traps; a running one traps for what it fetched, for what the
  instruction was refused, or for where it wanted to jump; otherwise it goes on
  to the next instruction, lands in the program, or exits. The lists of this
  module and of `Ebpf.Proofs.Exec` together say what a step changes.
-/
import Ebpf.Machine.Step
import Ebpf.Proofs.Decode
import Ebpf.Proofs.Exec

namespace Ebpf

variable {σ : Type}

/-- The surroundings after an instruction was decoded and before it runs. -/
def Env.announce (env : Env σ) (pc : Nat) (i : Insn) : Env σ :=
  (env.record [.exec pc i]).traceLine (.insn pc i)

@[simp] theorem Env.helpers_announce (env : Env σ) (pc : Nat) (i : Insn) :
    (env.announce pc i).helpers = env.helpers := by
  rw [announce, helpers_traceLine, helpers_record]

@[simp] theorem Env.packet_announce (env : Env σ) (pc : Nat) (i : Insn) :
    (env.announce pc i).packet = env.packet := by
  rw [announce, packet_traceLine, packet_record]

namespace Machine

/-- Where a jump by an offset leads. It may lie outside the program, on either side. -/
def target (m : Machine) (off : Int16) : Int :=
  m.pc + 1 + off.toInt

/-- A word index of the program, as an integer. -/
def InProgram (m : Machine) (i : Int) : Prop :=
  0 ≤ i ∧ i < m.programWords

instance (m : Machine) (i : Int) : Decidable (m.InProgram i) :=
  inferInstanceAs (Decidable (_ ∧ _))

/-- An instruction, executed where the program counter stands. -/
def execAt (env : Env σ) (m : Machine) (i : Insn) : Outcome σ (Except Fault Flow) :=
  exec (env.announce m.pc i) m i

/-! ## Outcomes of a step -/

/-- What a step can come to. -/
inductive StepEffect (d : Decoder) (env : Env σ) (m : Machine) :
    Outcome σ (Except Trap Status) → Prop
  | halted (hm : m.state ≠ .running) : StepEffect d env m (trap env m (.halted m.state))
  | undecoded {f : Fault} (hm : m.state = .running) (hd : m.fetch d m.pc = .error f) :
      StepEffect d env m (trap env m f)
  | refused {slot : Slot} {f : Fault} (hm : m.state = .running) (hd : m.fetch d m.pc = .ok slot)
      (he : (execAt env m slot.insn).result = .error f) :
      StepEffect d env m
        (trap (execAt env m slot.insn).env (execAt env m slot.insn).machine f)
  | stray {slot : Slot} {off : Int16} (hm : m.state = .running) (hd : m.fetch d m.pc = .ok slot)
      (he : (execAt env m slot.insn).result = .ok (.branch off))
      (ht : ¬ m.InProgram (m.target off)) :
      StepEffect d env m
        (trap ((env.announce m.pc slot.insn).traceLine (.regs m.pc m.regs)) m
          (.jumpOutOfRange (m.target off) m.programWords))
  | next {slot : Slot} (hm : m.state = .running) (hd : m.fetch d m.pc = .ok slot)
      (he : (execAt env m slot.insn).result = .ok .next) :
      StepEffect d env m
        { result := .ok .running
          machine := { (execAt env m slot.insn).machine with
            pc := m.pc + slot.words
            steps := m.steps + 1 }
          env := (execAt env m slot.insn).env.traceLine
            (.regs m.pc (execAt env m slot.insn).machine.regs) }
  | branch {slot : Slot} {off : Int16} (hm : m.state = .running) (hd : m.fetch d m.pc = .ok slot)
      (he : (execAt env m slot.insn).result = .ok (.branch off)) (ht : m.InProgram (m.target off)) :
      StepEffect d env m
        { result := .ok .running
          machine := { m with pc := (m.target off).toNat, steps := m.steps + 1 }
          env := (env.announce m.pc slot.insn).traceLine (.regs m.pc m.regs) }
  | exit {slot : Slot} (hm : m.state = .running) (hd : m.fetch d m.pc = .ok slot)
      (he : (execAt env m slot.insn).result = .ok .exit) :
      StepEffect d env m
        { result := .ok (.exited (m.regs.get Reg.result))
          machine := { m with steps := m.steps + 1, state := .exited }
          env := ((env.announce m.pc slot.insn).traceLine (.regs m.pc m.regs)).record
            [.exit m.pc (m.regs.get Reg.result) (m.steps + 1)] }

theorem execAt_effect (env : Env σ) (m : Machine) (i : Insn) :
    ExecEffect (env.announce m.pc i) m (execAt env m i) :=
  exec_effect _ m i

theorem step_running {d : Decoder} {env : Env σ} {m : Machine} {slot : Slot}
    (hm : m.state = .running) (hd : m.fetch d m.pc = .ok slot) :
    step d env m = stepSlot env m slot := by
  simp only [step, stepFetched, hm, hd]

theorem step_undecoded {d : Decoder} {env : Env σ} {m : Machine} {f : Fault}
    (hm : m.state = .running) (hd : m.fetch d m.pc = .error f) :
    step d env m = trap env m f := by
  simp only [step, stepFetched, hm, hd]

theorem step_halted (d : Decoder) (env : Env σ) {m : Machine} (hm : m.state ≠ .running) :
    step d env m = trap env m (.halted m.state) := by
  unfold step stepFetched
  split
  · next h => exact absurd h hm
  · rfl

theorem stepSlot_of_error {env : Env σ} {m : Machine} {slot : Slot} {f : Fault}
    (he : (execAt env m slot.insn).result = .error f) :
    stepSlot env m slot =
      trap (execAt env m slot.insn).env (execAt env m slot.insn).machine f := by
  unfold execAt Env.announce at *
  simp only [stepSlot, he]

theorem stepSlot_of_ok {env : Env σ} {m : Machine} {slot : Slot} {flow : Flow}
    (he : (execAt env m slot.insn).result = .ok flow) :
    stepSlot env m slot =
      advance
        ((execAt env m slot.insn).env.traceLine (.regs m.pc (execAt env m slot.insn).machine.regs))
        (execAt env m slot.insn).machine slot.words flow := by
  unfold execAt Env.announce at *
  simp only [stepSlot, he]

theorem advance_branch (env : Env σ) (m : Machine) (words : Nat) (off : Int16) :
    advance env m words (.branch off) =
      if m.InProgram (m.target off) then
        { result := .ok .running
          machine := { m with pc := (m.target off).toNat, steps := m.steps + 1 }
          env }
      else trap env m (.jumpOutOfRange (m.target off) m.programWords) := rfl

theorem step_effect (d : Decoder) (env : Env σ) (m : Machine) :
    StepEffect d env m (step d env m) := by
  by_cases hm : m.state = .running
  · cases hd : m.fetch d m.pc with
    | error f =>
      rw [step_undecoded hm hd]
      exact .undecoded hm hd
    | ok slot =>
      rw [step_running hm hd]
      have heff := execAt_effect env m slot.insn
      cases he : (execAt env m slot.insn).result with
      | error f =>
        rw [stepSlot_of_error he]
        exact .refused hm hd he
      | ok flow =>
        rw [stepSlot_of_ok he]
        cases flow with
        | next =>
          have hc := heff.confined
          have hpc : (execAt env m slot.insn).machine.pc = m.pc := by rw [hc]
          have hsteps : (execAt env m slot.insn).machine.steps = m.steps := by rw [hc]
          rw [advance, hpc, hsteps]
          exact .next hm hd he
        | branch off =>
          obtain ⟨hmach, henv⟩ := heff.eq_of_flow he (by simp)
          rw [hmach, henv, advance_branch]
          split
          · next ht => exact .branch hm hd he ht
          · next ht => exact .stray hm hd he ht
        | exit =>
          obtain ⟨hmach, henv⟩ := heff.eq_of_flow he (by simp)
          rw [hmach, henv, advance]
          exact .exit hm hd he
  · rw [step_halted d env hm]
    exact .halted hm

/-! ## What a step keeps -/

/-- A fetched instruction lies inside the program. -/
theorem words_le_of_fetch {d : Decoder} {m : Machine} {pc : Nat} {slot : Slot}
    (hd : m.fetch d pc = .ok slot) : pc + slot.words ≤ m.programWords := by
  rw [fetch_eq_decode] at hd
  have hlen := (decode_effect _ _ _).words_le hd
  have hpos := slot.words_pos
  rw [List.length_drop, Array.length_toList] at hlen
  unfold programWords
  unfold Word.size at *
  omega

namespace StepEffect

variable {d : Decoder} {env : Env σ} {m : Machine} {o : Outcome σ (Except Trap Status)}

/-- No step writes the frame register. -/
theorem frame (h : StepEffect d env m o) :
    o.machine.regs.get Reg.frame = m.regs.get Reg.frame := by
  cases h with
  | halted | undecoded | stray | branch | exit => rfl
  | refused hm hd he => exact (execAt_effect env m _).frame
  | next hm hd he => exact (execAt_effect env m _).frame

theorem size_stack (h : StepEffect d env m o) (henv : env.EveryReply Helper.KeepsStackSize) :
    o.machine.stack.size = m.stack.size := by
  have hann (i : Insn) : (env.announce m.pc i).EveryReply Helper.KeepsStackSize :=
    henv.of_helpers_eq (Env.helpers_announce _ _ _)
  cases h with
  | halted | undecoded | stray | branch | exit => rfl
  | refused hm hd he => exact (execAt_effect env m _).size_stack (hann _)
  | next hm hd he => exact (execAt_effect env m _).size_stack (hann _)

/-- A step comes to stand inside the program or right behind it. -/
theorem pc_le (h : StepEffect d env m o) (hpc : m.pc ≤ m.programWords) :
    o.machine.pc ≤ m.programWords := by
  cases h with
  | halted | undecoded | stray | exit => exact hpc
  | @refused slot f hm hd he =>
    have hc := (execAt_effect env m slot.insn).confined
    show (execAt env m slot.insn).machine.pc ≤ m.programWords
    rw [hc]
    exact hpc
  | next hm hd he => exact words_le_of_fetch hd
  | branch hm hd he ht =>
    obtain ⟨hlow, hhigh⟩ := ht
    show (m.target _).toNat ≤ m.programWords
    omega

theorem everyReply (h : StepEffect d env m o) {P : Stack → Helper.Reply σ → Prop}
    (henv : env.EveryReply P) : o.env.EveryReply P := by
  have hann (i : Insn) : (env.announce m.pc i).EveryReply P :=
    henv.of_helpers_eq (Env.helpers_announce _ _ _)
  cases h with
  | halted hm => exact henv.of_helpers_eq (Env.helpers_record _ _)
  | undecoded hm hd => exact henv.of_helpers_eq (Env.helpers_record _ _)
  | refused hm hd he =>
    exact ((execAt_effect env m _).everyReply (hann _)).of_helpers_eq (Env.helpers_record _ _)
  | stray hm hd he ht =>
    refine henv.of_helpers_eq ?_
    rw [trap, Env.helpers_record, Env.helpers_traceLine, Env.helpers_announce]
  | next hm hd he =>
    exact ((execAt_effect env m _).everyReply (hann _)).of_helpers_eq (Env.helpers_traceLine _ _)
  | branch hm hd he ht => exact (hann _).of_helpers_eq (Env.helpers_traceLine _ _)
  | exit hm hd he =>
    refine henv.of_helpers_eq ?_
    rw [Env.helpers_record, Env.helpers_traceLine, Env.helpers_announce]

end StepEffect

end Machine

end Ebpf

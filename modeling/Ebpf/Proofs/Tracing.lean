/-
  What a trace sees of an execution. A step offers its trace at most two lines,
  `offered`: the instruction once it is decoded, and the registers once it was
  executed. Which of them the trace takes is the trace's own choice, and a trace
  has no other source (`trace_step`).

  Along a sequence of steps, and in a run, every instruction line offered is
  that of the instruction which decoding gives at its program counter.
-/
import Ebpf.Proofs.Steps

namespace Ebpf

variable {σ : Type}

/-! ## Traces -/

namespace Trace

/-- Offers lines to a trace, one after the other. -/
def addAll (t : Trace) (lines : List TraceLine) : Trace :=
  lines.foldl Trace.add t

@[simp] theorem addAll_nil (t : Trace) : t.addAll [] = t := rfl

theorem addAll_append (t : Trace) (first second : List TraceLine) :
    t.addAll (first ++ second) = (t.addAll first).addAll second :=
  List.foldl_append

theorem takes_add (t : Trace) (line : TraceLine) : (t.add line).takes = t.takes := by
  funext l
  unfold add
  cases l with
  | insn => split <;> rfl
  | regs => split <;> rfl

/-- Of the lines offered, a trace keeps those of its kinds, in order. -/
theorem addAll_eq (t : Trace) (lines : List TraceLine) :
    t.addAll lines = { t with lines := t.lines ++ (lines.filter t.takes).toArray } := by
  induction lines generalizing t with
  | nil => simp
  | cons line rest ih =>
    have hcons : t.addAll (line :: rest) = (t.add line).addAll rest := rfl
    rw [hcons, ih, takes_add]
    by_cases hline : t.takes line
    · simp [add, hline]
    · simp [add, hline]

end Trace

namespace Env

@[simp] theorem trace_record (env : Env σ) (events : List Event) :
    (env.record events).trace = env.trace := by
  unfold record
  split <;> rfl

theorem trace_traceLine (env : Env σ) (line : TraceLine) :
    (env.traceLine line).trace = env.trace.map (·.addAll [line]) := by
  unfold traceLine
  cases h : env.trace with
  | none => simp [h]
  | some t => rfl

@[simp] theorem trace_afterCall (env : Env σ) (call : HelperTable.Call σ) :
    (env.afterCall call).trace = env.trace := by
  rw [afterCall, trace_record]

theorem trace_announce (env : Env σ) (pc : Nat) (i : Insn) :
    (env.announce pc i).trace = env.trace.map (·.addAll [.insn pc i]) := by
  rw [announce, trace_traceLine, trace_record]

end Env

namespace Machine

/-! ## Steps -/

/-- No instruction writes to the trace. -/
theorem ExecEffect.trace {env : Env σ} {m : Machine} {o : Outcome σ (Except Fault Flow)}
    (h : ExecEffect env m o) : o.env.trace = env.trace := by
  cases h with
  | attempt h => rw [env_settle]
  | flow f => rfl
  | callFailed ht hr => exact Env.trace_afterCall _ _
  | callReturned ht hr => exact Env.trace_afterCall _ _

/-- The lines that a step offers to its trace. -/
def offered (d : Decoder) (env : Env σ) (m : Machine) : List TraceLine :=
  match m.state, m.fetch d m.pc with
  | .running, .ok slot =>
    let after := execAt env m slot.insn
    .insn m.pc slot.insn ::
      match after.result with
      | .ok _ => [.regs m.pc after.machine.regs]
      | .error _ => []
  | _, _ => []

variable {d : Decoder} {env : Env σ} {m : Machine}

theorem offered_of_halted (hm : m.state ≠ .running) : offered d env m = [] := by
  unfold offered
  split
  · next hr _ => exact absurd hr hm
  · rfl

theorem offered_of_undecoded {f : Fault} (hm : m.state = .running)
    (hd : m.fetch d m.pc = .error f) : offered d env m = [] := by
  simp only [offered, hm, hd]

theorem offered_of_error {slot : Slot} {f : Fault} (hm : m.state = .running)
    (hd : m.fetch d m.pc = .ok slot) (he : (execAt env m slot.insn).result = .error f) :
    offered d env m = [.insn m.pc slot.insn] := by
  simp only [offered, hm, hd, he]

theorem offered_of_ok {slot : Slot} {flow : Flow} (hm : m.state = .running)
    (hd : m.fetch d m.pc = .ok slot) (he : (execAt env m slot.insn).result = .ok flow) :
    offered d env m =
      [.insn m.pc slot.insn] ++ [.regs m.pc (execAt env m slot.insn).machine.regs] := by
  simp only [offered, hm, hd, he]
  rfl

theorem StepEffect.trace {o : Outcome σ (Except Trap Status)} (h : StepEffect d env m o) :
    o.env.trace = env.trace.map (·.addAll (offered d env m)) := by
  have hexec (i : Insn) : (execAt env m i).env.trace = env.trace.map (·.addAll [.insn m.pc i]) :=
    (execAt_effect env m i).trace.trans (Env.trace_announce env m.pc i)
  -- an instruction that decides where to go next leaves the registers alone
  have hstays {slot : Slot} {flow : Flow} (hne : flow ≠ .next)
      (he : (execAt env m slot.insn).result = .ok flow) :
      (execAt env m slot.insn).machine = m := ((execAt_effect env m _).eq_of_flow he hne).1
  have htwice (i : Insn) (regs : Registers) :
      ((env.announce m.pc i).traceLine (.regs m.pc regs)).trace =
        env.trace.map (·.addAll ([.insn m.pc i] ++ [.regs m.pc regs])) := by
    rw [Env.trace_traceLine, Env.trace_announce, Option.map_map]
    rfl
  cases h with
  | halted hm =>
    rw [trap, offered_of_halted hm, Env.trace_record]
    exact Option.map_id'.symm
  | undecoded hm hd =>
    rw [trap, offered_of_undecoded hm hd, Env.trace_record]
    exact Option.map_id'.symm
  | refused hm hd he => rw [trap, offered_of_error hm hd he, Env.trace_record, hexec]
  | stray hm hd he ht =>
    rw [trap, offered_of_ok hm hd he, hstays (by simp) he, Env.trace_record]
    exact htwice _ _
  | next hm hd he =>
    rw [offered_of_ok hm hd he, Env.trace_traceLine, hexec, Option.map_map]
    rfl
  | branch hm hd he ht =>
    rw [offered_of_ok hm hd he, hstays (by simp) he]
    exact htwice _ _
  | exit hm hd he =>
    rw [offered_of_ok hm hd he, hstays (by simp) he, Env.trace_record]
    exact htwice _ _

theorem trace_step (d : Decoder) (env : Env σ) (m : Machine) :
    (step d env m).env.trace = env.trace.map (·.addAll (offered d env m)) :=
  (step_effect d env m).trace

theorem insn_mem_offered {pc : Nat} {i : Insn} (h : .insn pc i ∈ offered d env m) :
    pc = m.pc ∧ ∃ slot, m.fetch d m.pc = .ok slot ∧ slot.insn = i := by
  unfold offered at h
  split at h
  · next slot _ hd =>
    dsimp only at h
    rcases List.mem_cons.mp h with heq | hregs
    · cases heq
      exact ⟨rfl, slot, hd, rfl⟩
    · split at hregs <;> simp at hregs
  · cases h

theorem mem_offered {slot : Slot} (hm : m.state = .running) (hd : m.fetch d m.pc = .ok slot) :
    .insn m.pc slot.insn ∈ offered d env m := by
  simp only [offered, hm, hd]
  exact List.mem_cons_self

/-! ## Executions -/

/-- Lines whose instructions are those that decoding gives at their program counters. -/
def Decoded (d : Decoder) (m : Machine) (lines : List TraceLine) : Prop :=
  ∀ pc i, .insn pc i ∈ lines → ∃ slot, m.fetch d pc = .ok slot ∧ slot.insn = i

theorem decoded_offered (d : Decoder) (env : Env σ) (m : Machine) :
    m.Decoded d (offered d env m) := by
  intro pc i h
  obtain ⟨rfl, slot, hd, hi⟩ := insn_mem_offered h
  exact ⟨slot, hd, hi⟩

theorem Decoded.of_code {m' : Machine} {lines : List TraceLine} (h : m'.Decoded d lines)
    (hcode : m'.code = m.code) : m.Decoded d lines := by
  intro pc i hmem
  rw [← fetch_congr d hcode]
  exact h pc i hmem

theorem Decoded.append {first second : List TraceLine} (h₁ : m.Decoded d first)
    (h₂ : m.Decoded d second) : m.Decoded d (first ++ second) := by
  intro pc i hmem
  exact (List.mem_append.mp hmem).elim (h₁ pc i) (h₂ pc i)

variable {n : Nat} {env' : Env σ} {m' : Machine}

theorem Steps.trace (h : Steps d n env m env' m') :
    ∃ lines, env'.trace = env.trace.map (·.addAll lines) ∧ m.Decoded d lines := by
  induction h with
  | refl env m => exact ⟨[], Option.map_id'.symm, fun pc i hmem => by cases hmem⟩
  | @cons n env env' m m' hr _ ih =>
    obtain ⟨lines, htrace, hlines⟩ := ih
    refine ⟨offered d env m ++ lines, ?_, ?_⟩
    · rw [htrace, trace_step, Option.map_map]
      simp only [Trace.addAll_append]
      rfl
    · exact (decoded_offered d env m).append (hlines.of_code (code_step d env m))

/-- The lines of a sequence of steps and of the step after it, which may be the last. -/
theorem Steps.trace_step (h : Steps d n env m env' m') :
    ∃ lines, (step d env' m').env.trace = env.trace.map (·.addAll (lines ++ offered d env' m')) ∧
      m.Decoded d (lines ++ offered d env' m') := by
  obtain ⟨lines, htrace, hlines⟩ := h.trace
  refine ⟨lines, ?_, hlines.append ((decoded_offered d env' m').of_code h.code)⟩
  rw [Machine.trace_step, htrace, Option.map_map]
  simp only [Trace.addAll_append]
  rfl

theorem trace_run (d : Decoder) (env : Env σ) (m : Machine) :
    ∃ lines, (run d env m).env.trace = env.trace.map (·.addAll lines) ∧ m.Decoded d lines := by
  rcases run_cases d env m with ⟨n, r0, env', m', -, hexit, hrun⟩ |
    ⟨n, t, env', m', -, htrap, hrun⟩ | ⟨env', m', hgo, ⟨limit, -, hrun⟩ | ⟨-, hrun⟩⟩
  · rw [hrun]
    cases hexit with
    | mk h hr =>
      obtain ⟨lines, htrace, hlines⟩ := h.trace_step
      exact ⟨_, htrace, hlines⟩
  · rw [hrun]
    cases htrap with
    | mk h hr =>
      obtain ⟨lines, htrace, hlines⟩ := h.trace_step
      exact ⟨_, htrace, hlines⟩
  · obtain ⟨lines, htrace, hlines⟩ := hgo.trace
    refine ⟨lines, ?_, hlines⟩
    rw [hrun, exhaust, Env.trace_record, htrace]
  · obtain ⟨lines, htrace, hlines⟩ := hgo.trace
    refine ⟨lines, ?_, hlines⟩
    rw [hrun, htrace]

end Machine

end Ebpf

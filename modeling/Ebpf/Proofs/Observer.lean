/-
  A trace observes and does nothing else. Taking the trace out of the
  surroundings commutes with everything a machine does: one lemma for each part
  of a step, then steps, runs and sequences of calls that share their
  surroundings (`serveAll_untraced`). So results, machines, helpers and events
  are those of an execution without a trace, and the lines that a trace is
  offered do not depend on which of them it takes.

  How many lines of each kind a run offers is read off the steps it tries,
  `attempts`. A step that succeeds offers one of each kind; a step that traps
  offers its instruction if it came as far as decoding it, and its registers
  only if it had been executed and then jumped out of the program.
-/
import Ebpf.Proofs.StepFaults
import Ebpf.Proofs.Tracing

namespace Ebpf

variable {σ : Type}

/-! ## Kinds of lines and of faults -/

/-- Lines that show an instruction. -/
def TraceLine.isInsn : TraceLine → Bool
  | insn .. => true
  | regs .. => false

/-- Lines that show the registers. -/
def TraceLine.isRegs : TraceLine → Bool
  | insn .. => false
  | regs .. => true

/-- The kinds of line that a trace takes are those of its flags. -/
theorem Trace.takes_eq (t : Trace) :
    t.takes = fun line => line.isInsn && t.insns || line.isRegs && t.regs := by
  funext line
  cases line with
  | insn pc i => simp [takes, TraceLine.isInsn, TraceLine.isRegs]
  | regs pc r => simp [takes, TraceLine.isInsn, TraceLine.isRegs]

/-- A trace that takes all lines and has none yet. -/
def Trace.full : Trace := { insns := true, regs := true, lines := #[] }

theorem Trace.full_addAll (lines : List TraceLine) :
    Trace.full.addAll lines = { Trace.full with lines := lines.toArray } := by
  have htakes : Trace.full.takes = fun _ => true := by
    funext line
    cases line <;> rfl
  rw [addAll_eq, htakes]
  simp [full]

namespace Fault

/-- Faults that come after an instruction was decoded: it is refused, or it jumps out of the
program. -/
def afterDecoding : Fault → Bool
  | truncated .. | badContinuation .. | invalidRegister .. | unsupportedOpcode .. => false
  | frameRegisterWrite | memoryBounds .. | noPacket | packet .. => true
  | unknownHelper .. | helper .. | jumpOutOfRange .. => true
  | budgetExhausted .. | halted .. => false

/-- The fault of a jump out of the program. -/
def isStray : Fault → Bool
  | jumpOutOfRange .. => true
  | _ => false

theorem OfDecoding.sort {f : Fault} (h : f.OfDecoding) :
    f.afterDecoding = false ∧ f.isStray = false := by
  cases h <;> exact ⟨rfl, rfl⟩

end Fault

theorem Insn.Faults.sort {helpers : Option (HelperTable σ)} {packet : Option Packet} {m : Machine}
    {i : Insn} {f : Fault} (h : i.Faults helpers packet m f) :
    f.afterDecoding = true ∧ f.isStray = false := by
  cases h <;> exact ⟨rfl, rfl⟩

/-! ## Without the trace -/

namespace Env

/-- The same surroundings without a trace. -/
def untraced (env : Env σ) : Env σ :=
  { env with trace := none }

theorem untraced_record (env : Env σ) (events : List Event) :
    (env.record events).untraced = env.untraced.record events := by
  have hlog : env.untraced.log = env.log := rfl
  unfold record
  rw [hlog]
  split <;> rfl

theorem untraced_traceLine (env : Env σ) (line : TraceLine) :
    (env.traceLine line).untraced = env.untraced := by
  unfold traceLine
  split <;> rfl

theorem traceLine_untraced (env : Env σ) (line : TraceLine) :
    env.untraced.traceLine line = env.untraced := rfl

theorem announce_untraced (env : Env σ) (pc : Nat) (i : Insn) :
    env.untraced.announce pc i = (env.announce pc i).untraced := by
  rw [announce, announce, untraced_traceLine, ← untraced_record, traceLine_untraced]

theorem afterCall_untraced (env : Env σ) (call : HelperTable.Call σ) :
    env.untraced.afterCall call = (env.afterCall call).untraced :=
  (untraced_record { env with helpers := some call.table } call.events).symm

end Env

/-- The same outcome without a trace. -/
def Outcome.untraced {α : Type} (o : Outcome σ α) : Outcome σ α :=
  { o with env := o.env.untraced }

namespace Machine

variable (env : Env σ) (m : Machine)

theorem settle_untraced (a : Attempt) : a.settle env.untraced = (a.settle env).untraced := by
  unfold Attempt.settle
  split <;> rfl

theorem execCall_untraced (i : Insn) :
    execCall env.untraced m i = (execCall env m i).untraced := by
  have hhelpers : env.untraced.helpers = env.helpers := rfl
  unfold execCall
  rw [hhelpers]
  cases env.helpers with
  | none => rfl
  | some table =>
    dsimp only
    have hafter := env.afterCall_untraced (table.call i.imm.toUInt64.toUInt32 m.regs.args m.stack)
    unfold Env.afterCall at hafter
    rw [hafter]
    split
    · rfl
    · exact settle_untraced _ _

/-- No instruction looks at the trace. -/
theorem exec_untraced (i : Insn) : exec env.untraced m i = (exec env m i).untraced := by
  unfold exec
  cases i.op with
  | alu | swap | loadImm64 | loadPacket | load | store | atomicAdd => exact settle_untraced _ _
  | call => exact execCall_untraced env m i
  | ja | jmp | exit => rfl

theorem execAt_untraced (i : Insn) : execAt env.untraced m i = (execAt env m i).untraced := by
  rw [execAt, Env.announce_untraced, exec_untraced, execAt]

theorem trap_untraced {α : Type} (fault : Fault) :
    (trap env.untraced m fault : Outcome σ (Except Trap α)) = (trap env m fault).untraced := by
  simp only [trap, Outcome.untraced, Env.untraced_record]

theorem advance_untraced (words : Nat) (flow : Flow) :
    advance env.untraced m words flow = (advance env m words flow).untraced := by
  cases flow with
  | next => rfl
  | branch off =>
    rw [advance_branch, advance_branch, apply_ite Outcome.untraced, trap_untraced]
    rfl
  | exit => simp only [advance, Outcome.untraced, Env.untraced_record]

theorem stepSlot_untraced (slot : Slot) :
    stepSlot env.untraced m slot = (stepSlot env m slot).untraced := by
  have hexec := execAt_untraced env m slot.insn
  have hresult : (execAt env.untraced m slot.insn).result = (execAt env m slot.insn).result := by
    rw [hexec]
    rfl
  cases he : (execAt env m slot.insn).result with
  | error f =>
    rw [stepSlot_of_error he, stepSlot_of_error (hresult.trans he), hexec]
    exact trap_untraced _ _ f
  | ok flow =>
    rw [stepSlot_of_ok he, stepSlot_of_ok (hresult.trans he), hexec, ← advance_untraced,
      Env.untraced_traceLine]
    rfl

/-- A step does not depend on the trace. -/
theorem step_untraced (d : Decoder) : step d env.untraced m = (step d env m).untraced := by
  by_cases hm : m.state = .running
  · cases hd : m.fetch d m.pc with
    | error f =>
      rw [step_undecoded hm hd, step_undecoded hm hd]
      exact trap_untraced env m f
    | ok slot =>
      rw [step_running hm hd, step_running hm hd]
      exact stepSlot_untraced env m slot
  · rw [step_halted d env hm, step_halted d env.untraced hm]
    exact trap_untraced env m _

theorem runFor_untraced (d : Decoder) (n : Nat) :
    runFor (step d) n env.untraced m = (runFor (step d) n env m).untraced := by
  induction n generalizing env m with
  | zero => rfl
  | succ n ih =>
    rw [runFor, runFor, step_untraced]
    cases m.spentBudget? with
    | some limit =>
      dsimp only
      rw [trap_untraced]
      rfl
    | none =>
      dsimp only [Outcome.untraced]
      split
      · exact ih _ _
      · rfl
      · rfl

theorem run_untraced (d : Decoder) : run d env.untraced m = (run d env m).untraced := by
  rw [run_eq, run_eq, runFor_untraced]

theorem offered_untraced (d : Decoder) : offered d env.untraced m = offered d env m := by
  simp only [offered, execAt_untraced, Outcome.untraced]

/-! ## The steps of a run -/

/-- The machines at which a run takes a step, or tries to, with the surroundings of each. -/
def attemptsFor (d : Decoder) : Nat → Env σ → Machine → List (Env σ × Machine)
  | 0, _, _ => []
  | rounds + 1, env, m =>
    match m.spentBudget? with
    | some _ => []
    | none =>
      let after := step d env m
      (env, m) ::
        match after.result with
        | .ok .running => attemptsFor d rounds after.env after.machine
        | _ => []

/-- The attempts of a whole run. -/
def attempts (d : Decoder) (env : Env σ) (m : Machine) : List (Env σ × Machine) :=
  attemptsFor d m.rounds env m

/-- The number of attempts that succeed. -/
def successes (d : Decoder) (tried : List (Env σ × Machine)) : Nat :=
  tried.countP fun c => (step d c.1 c.2).result.isOk

/-- The lines that attempts offer, one after the other. -/
def linesOf (d : Decoder) (tried : List (Env σ × Machine)) : List TraceLine :=
  tried.flatMap fun c => offered d c.1 c.2

theorem linesOf_cons (d : Decoder) (tried : List (Env σ × Machine)) :
    linesOf d ((env, m) :: tried) = offered d env m ++ linesOf d tried :=
  List.flatMap_cons

theorem linesOf_singleton (d : Decoder) : linesOf d [(env, m)] = offered d env m := by
  rw [linesOf_cons, linesOf, List.flatMap_nil, List.append_nil]

theorem attemptsFor_untraced (d : Decoder) (n : Nat) :
    attemptsFor d n env.untraced m =
      (attemptsFor d n env m).map fun c => (c.1.untraced, c.2) := by
  induction n generalizing env m with
  | zero => rfl
  | succ n ih =>
    rw [attemptsFor, attemptsFor, step_untraced]
    cases m.spentBudget? with
    | some limit => rfl
    | none =>
      dsimp only [Outcome.untraced]
      split
      · rw [ih, List.map_cons]
      · rfl

theorem linesOf_attempts_untraced (d : Decoder) :
    linesOf d (attempts d env.untraced m) = linesOf d (attempts d env m) := by
  rw [attempts, attempts, attemptsFor_untraced, linesOf, linesOf, List.flatMap_map]
  simp only [offered_untraced]

/-- A run, with the attempts that it makes: it pauses, finds its budget spent, makes a last attempt,
or goes on after one. -/
inductive RunEffect (d : Decoder) :
    Env σ → Machine → List (Env σ × Machine) → Outcome σ (Option (Except Trap UInt64)) → Prop
  | pause (env : Env σ) (m : Machine) : RunEffect d env m [] { result := none, machine := m, env }
  | spent {env : Env σ} {m : Machine} {limit : UInt64} (hb : m.spentBudget? = some limit) :
      RunEffect d env m [] (exhaust env m limit)
  | exit {env : Env σ} {m : Machine} {r0 : UInt64} (hr : (step d env m).result = .ok (.exited r0)) :
      RunEffect d env m [(env, m)] { step d env m with result := some (.ok r0) }
  | trap {env : Env σ} {m : Machine} {t : Trap} (hr : (step d env m).result = .error t) :
      RunEffect d env m [(env, m)] { step d env m with result := some (.error t) }
  | cons {env : Env σ} {m : Machine} {tried : List (Env σ × Machine)}
      {o : Outcome σ (Option (Except Trap UInt64))} (hr : (step d env m).result = .ok .running)
      (rest : RunEffect d (step d env m).env (step d env m).machine tried o) :
      RunEffect d env m ((env, m) :: tried) o

theorem runFor_effect (d : Decoder) (n : Nat) :
    RunEffect d env m (attemptsFor d n env m) (runFor (step d) n env m) := by
  induction n generalizing env m with
  | zero => exact .pause env m
  | succ n ih =>
    rw [attemptsFor, runFor]
    cases hb : m.spentBudget? with
    | some limit => exact .spent hb
    | none =>
      dsimp only
      cases hr : (step d env m).result with
      | error t => exact .trap hr
      | ok status =>
        cases status with
        | running => exact .cons hr (ih _ _)
        | exited r0 => exact .exit hr

theorem run_effect (d : Decoder) : RunEffect d env m (attempts d env m) (run d env m) := by
  rw [run_eq]
  exact runFor_effect env m d _

variable {env m} {d : Decoder} {tried : List (Env σ × Machine)}
  {o : Outcome σ (Option (Except Trap UInt64))}

theorem successes_cons_of_ok {status : Status} (hr : (step d env m).result = .ok status) :
    successes d ((env, m) :: tried) = successes d tried + 1 := by
  refine List.countP_cons_of_pos ?_
  show (step d env m).result.isOk = true
  rw [hr]
  rfl

theorem successes_of_error {t : Trap} (hr : (step d env m).result = .error t) :
    successes d [(env, m)] = 0 := by
  refine List.countP_eq_zero.mpr fun c hc => ?_
  rw [List.mem_singleton.mp hc, hr]
  exact Bool.false_ne_true

/-- A trace is offered the lines of all attempts, and no others. -/
theorem RunEffect.trace (h : RunEffect d env m tried o) :
    o.env.trace = env.trace.map (·.addAll (linesOf d tried)) := by
  induction h with
  | pause env m => exact Option.map_id'.symm
  | spent hb =>
    rw [exhaust, Env.trace_record]
    exact Option.map_id'.symm
  | @exit env m r0 hr =>
    rw [linesOf_singleton]
    exact trace_step d env m
  | @trap env m t hr =>
    rw [linesOf_singleton]
    exact trace_step d env m
  | cons hr _ ih =>
    rw [ih, trace_step, Option.map_map, linesOf_cons]
    simp only [Trace.addAll_append]
    rfl

/-- The counter of a machine counts the attempts that succeed. -/
theorem RunEffect.steps (h : RunEffect d env m tried o) :
    o.machine.steps = m.steps + UInt64.ofNat (successes d tried) := by
  induction h with
  | pause env m => exact (UInt64.add_zero _).symm
  | spent hb => exact (UInt64.add_zero _).symm
  | @exit env m r0 hr =>
    rw [successes_cons_of_ok hr]
    exact (step_effect d env m).steps_of_ok hr
  | @trap env m t hr =>
    rw [successes_of_error hr]
    exact ((step_effect d env m).steps_of_error hr).trans (UInt64.add_zero _).symm
  | @cons env m tried o hr _ ih =>
    rw [ih, (step_effect d env m).steps_of_ok hr, successes_cons_of_ok hr, UInt64.ofNat_add,
      UInt64.add_assoc, UInt64.add_comm 1]
    rfl

/-- A trap that ends a run comes from one of its attempts, or from the budget. -/
theorem RunEffect.attempt_of_trap (h : RunEffect d env m tried o) {t : Trap}
    (ht : o.result = some (.error t)) :
    (∃ c ∈ tried, (step d c.1 c.2).result = .error t) ∨
      ∃ limit, t.fault = .budgetExhausted limit := by
  induction h with
  | pause env m => cases ht
  | spent hb =>
    cases ht
    exact .inr ⟨_, rfl⟩
  | exit hr => cases ht
  | trap hr =>
    cases ht
    exact .inl ⟨_, List.mem_cons_self, hr⟩
  | cons hr _ ih =>
    obtain ⟨c, hc, hstep⟩ | hlimit := ih ht
    · exact .inl ⟨c, List.mem_cons_of_mem _ hc, hstep⟩
    · exact .inr hlimit

/-! ## Lines of each kind -/

theorem sort_of_fetch {f : Fault} {pc : Nat} (hd : m.fetch d pc = .error f) :
    f.afterDecoding = false ∧ f.isStray = false := by
  rw [fetch_eq_decode] at hd
  exact ((decode_effect _ _ _).ofDecoding hd).sort

theorem sort_of_execAt {i : Insn} {f : Fault} (he : (execAt env m i).result = .error f) :
    f.afterDecoding = true ∧ f.isStray = false :=
  (execAt_eq_error_iff.mp he).sort

/-- The lines of a kind that a step owes to its trace: one if it succeeds, and one if it traps with
a fault of a certain sort. -/
def due (sort : Fault → Bool) : Except Trap Status → Nat
  | .ok _ => 1
  | .error t => (sort t.fault).toNat

theorem StepEffect.countP_offered {o : Outcome σ (Except Trap Status)} (h : StepEffect d env m o) :
    (offered d env m).countP TraceLine.isInsn = due Fault.afterDecoding o.result ∧
      (offered d env m).countP TraceLine.isRegs = due Fault.isStray o.result := by
  cases h with
  | halted hm =>
    rw [offered_of_halted hm]
    exact ⟨rfl, rfl⟩
  | undecoded hm hd =>
    rw [offered_of_undecoded hm hd, trap, due, due, (sort_of_fetch hd).1, (sort_of_fetch hd).2]
    exact ⟨rfl, rfl⟩
  | refused hm hd he =>
    rw [offered_of_error hm hd he, trap, due, due, (sort_of_execAt he).1, (sort_of_execAt he).2]
    exact ⟨rfl, rfl⟩
  | stray hm hd he _ | next hm hd he | branch hm hd he _ | exit hm hd he =>
    rw [offered_of_ok hm hd he]
    exact ⟨rfl, rfl⟩

/-- The sort of its fault tells how far a step came that trapped. -/
theorem StepEffect.afterDecoding_iff {o : Outcome σ (Except Trap Status)}
    (h : StepEffect d env m o) {t : Trap} (ht : o.result = .error t) :
    t.fault.afterDecoding = true ↔ m.state = .running ∧ ∃ slot, m.fetch d m.pc = .ok slot := by
  cases h with
  | halted hm =>
    cases ht
    simp [Fault.afterDecoding, hm]
  | undecoded hm hd =>
    cases ht
    simp [(sort_of_fetch hd).1, hd]
  | refused hm hd he =>
    cases ht
    exact ⟨fun _ => ⟨hm, _, hd⟩, fun _ => (sort_of_execAt he).1⟩
  | stray hm hd he _ =>
    cases ht
    exact ⟨fun _ => ⟨hm, _, hd⟩, fun _ => rfl⟩
  | next | branch | exit => cases ht

/-- Whether a run ended in a trap with a fault of a certain sort. -/
def endsIn (sort : Fault → Bool) : Option (Except Trap UInt64) → Bool
  | some (.error t) => sort t.fault
  | _ => false

/-- What every step owes to its trace, whole runs owe. -/
theorem RunEffect.countP {kind : TraceLine → Bool} {sort : Fault → Bool}
    (hdue : ∀ (env : Env σ) m, (offered d env m).countP kind = due sort (step d env m).result)
    (hbudget : ∀ limit, sort (.budgetExhausted limit) = false)
    {tried : List (Env σ × Machine)} {o : Outcome σ (Option (Except Trap UInt64))}
    (h : RunEffect d env m tried o) :
    (linesOf d tried).countP kind = successes d tried + (endsIn sort o.result).toNat := by
  induction h with
  | pause env m => rfl
  | spent hb =>
    rw [exhaust, endsIn, hbudget]
    rfl
  | @exit env m r0 hr =>
    rw [linesOf_singleton, hdue, hr, successes_cons_of_ok hr]
    rfl
  | @trap env m t hr =>
    rw [linesOf_singleton, hdue, hr, successes_of_error hr]
    exact (Nat.zero_add _).symm
  | @cons env m tried o hr _ ih =>
    rw [linesOf_cons, List.countP_append, hdue, hr, ih, successes_cons_of_ok hr, due]
    omega

theorem RunEffect.afterDecoding_iff {tried : List (Env σ × Machine)}
    {o : Outcome σ (Option (Except Trap UInt64))} (h : RunEffect d env m tried o) {t : Trap}
    (ht : o.result = some (.error t)) :
    t.fault.afterDecoding = true ↔
      ∃ c ∈ tried, (step d c.1 c.2).result = .error t ∧ c.2.state = .running ∧
        ∃ slot, c.2.fetch d c.2.pc = .ok slot := by
  constructor
  · intro hfault
    obtain ⟨c, hc, hstep⟩ | ⟨limit, hlimit⟩ := h.attempt_of_trap ht
    · exact ⟨c, hc, hstep, ((step_effect d c.1 c.2).afterDecoding_iff hstep).mp hfault⟩
    · rw [hlimit] at hfault
      cases hfault
  · rintro ⟨c, -, hstep, hdecoded⟩
    exact ((step_effect d c.1 c.2).afterDecoding_iff hstep).mpr hdecoded

/-! ## Calls that share their surroundings -/

/-- A call of one of the two drivers of a machine. -/
inductive Request where
  | step (d : Decoder)
  | run (d : Decoder)

/-- What a call returns. -/
inductive Answer where
  | step (result : Except Trap Status)
  | run (result : Option (Except Trap UInt64))

/-- Makes a call. -/
def serve (env : Env σ) (m : Machine) : Request → Outcome σ Answer
  | .step d => { step d env m with result := .step (step d env m).result }
  | .run d => { run d env m with result := .run (run d env m).result }

/-- Makes calls one after the other. -/
def serveAll (env : Env σ) (m : Machine) : List Request → Outcome σ (List Answer)
  | [] => { result := [], machine := m, env }
  | r :: rest =>
    let first := serve env m r
    let others := serveAll first.env first.machine rest
    { others with result := first.result :: others.result }

/-- The lines that a call offers to the trace. -/
def served (env : Env σ) (m : Machine) : Request → List TraceLine
  | .step d => offered d env m
  | .run d => linesOf d (attempts d env m)

/-- The lines that calls offer to the trace, one after the other. -/
def servedAll (env : Env σ) (m : Machine) : List Request → List TraceLine
  | [] => []
  | r :: rest => served env m r ++ servedAll (serve env m r).env (serve env m r).machine rest

variable (env : Env σ) (m : Machine)

theorem serve_untraced (r : Request) : serve env.untraced m r = (serve env m r).untraced := by
  cases r with
  | step d =>
    rw [serve, step_untraced]
    rfl
  | run d =>
    rw [serve, run_untraced]
    rfl

theorem served_untraced (r : Request) : served env.untraced m r = served env m r := by
  cases r with
  | step d => exact offered_untraced env m d
  | run d => exact linesOf_attempts_untraced env m d

theorem trace_serve (r : Request) :
    (serve env m r).env.trace = env.trace.map (·.addAll (served env m r)) := by
  cases r with
  | step d => exact trace_step d env m
  | run d => exact (run_effect env m d).trace

theorem serveAll_untraced (requests : List Request) :
    serveAll env.untraced m requests = (serveAll env m requests).untraced := by
  induction requests generalizing env m with
  | nil => rfl
  | cons r rest ih =>
    have hrest := ih (serve env m r).env (serve env m r).machine
    simp only [serveAll, serve_untraced, Outcome.untraced, hrest]

theorem servedAll_untraced (requests : List Request) :
    servedAll env.untraced m requests = servedAll env m requests := by
  induction requests generalizing env m with
  | nil => rfl
  | cons r rest ih =>
    have hrest := ih (serve env m r).env (serve env m r).machine
    simp only [servedAll, served_untraced, serve_untraced, Outcome.untraced, hrest]

theorem trace_serveAll (requests : List Request) :
    (serveAll env m requests).env.trace = env.trace.map (·.addAll (servedAll env m requests)) := by
  induction requests generalizing env m with
  | nil => exact Option.map_id'.symm
  | cons r rest ih =>
    rw [serveAll, servedAll]
    dsimp only
    rw [ih, trace_serve, Option.map_map]
    simp only [Trace.addAll_append]
    rfl

/-! ## Main statement -/

/-- Tracing only observes. Calls made one after the other in the same surroundings give the same
answers, and leave the same machine and the same surroundings but for the trace, with any trace and
with none. Of the lines that a trace of all kinds gains, any trace gains, in their order, those that
show an instruction if it asks for these and those that show the registers if it asks for these. A
run shows an instruction for each step that succeeds and one more if it ends in a trap
that was raised after decoding, and the registers for each step that succeeds and once more if it
ends in a jump out of the program. -/
theorem tracing_observes (env : Env σ) (m : Machine) :
    (∀ (requests : List Request) (t : Trace),
      let quiet := serveAll { env with trace := none } m requests
      let traced := serveAll { env with trace := some t } m requests
      traced.result = quiet.result ∧ traced.machine = quiet.machine ∧
        { traced.env with trace := none } = quiet.env) ∧
    (∀ requests : List Request, ∃ lines : Array TraceLine,
      (serveAll { env with trace := some .full } m requests).env.trace =
          some { Trace.full with lines } ∧
        ∀ t : Trace, (serveAll { env with trace := some t } m requests).env.trace =
          some { t with
            lines := t.lines ++
              lines.filter fun line => line.isInsn && t.insns || line.isRegs && t.regs }) ∧
    ∀ d : Decoder,
      let start : Env σ := { env with trace := some .full }
      let result := (run d start m).result
      let taken := successes d (attempts d start m)
      (run d start m).machine.steps = m.steps + UInt64.ofNat taken ∧
      (∀ t, result = some (.error t) →
        (t.fault.afterDecoding = true ↔
          ∃ c ∈ attempts d start m, (step d c.1 c.2).result = .error t ∧ c.2.state = .running ∧
            ∃ slot, c.2.fetch d c.2.pc = .ok slot)) ∧
      ∃ lines : Array TraceLine, (run d start m).env.trace = some { Trace.full with lines } ∧
        lines.countP TraceLine.isInsn = taken + (endsIn Fault.afterDecoding result).toNat ∧
        lines.countP TraceLine.isRegs = taken + (endsIn Fault.isStray result).toNat := by
  refine ⟨?_, ?_, ?_⟩
  · intro requests t
    have hquiet : serveAll { env with trace := none } m requests =
        (serveAll { env with trace := some t } m requests).untraced :=
      serveAll_untraced { env with trace := some t } m requests
    intro quiet traced
    show traced.result = quiet.result ∧ traced.machine = quiet.machine ∧ _ = quiet.env
    rw [show quiet = traced.untraced from hquiet]
    exact ⟨rfl, rfl, rfl⟩
  · intro requests
    -- the lines on offer are those of the surroundings without a trace
    have hlines (t : Trace) : servedAll { env with trace := some t } m requests =
        servedAll env.untraced m requests :=
      (servedAll_untraced { env with trace := some t } m requests).symm
    refine ⟨(servedAll env.untraced m requests).toArray, ?_, ?_⟩
    · rw [trace_serveAll, hlines]
      exact congrArg some (Trace.full_addAll _)
    · intro t
      rw [trace_serveAll, hlines, List.filter_toArray, ← t.takes_eq]
      exact congrArg some (Trace.addAll_eq _ _)
  · intro d start result taken
    have hrun := run_effect start m d
    refine ⟨hrun.steps, fun t ht => hrun.afterDecoding_iff ht,
      (linesOf d (attempts d start m)).toArray, ?_, ?_, ?_⟩
    · rw [hrun.trace]
      exact congrArg some (Trace.full_addAll _)
    · rw [List.countP_toArray]
      exact hrun.countP (fun env m => (step_effect d env m).countP_offered.1) fun _ => rfl
    · rw [List.countP_toArray]
      exact hrun.countP (fun env m => (step_effect d env m).countP_offered.2) fun _ => rfl

/-- `mov r0, 7` and a jump to the word at seven, which the program does not have. -/
def strayAfterMove : Machine :=
  (Machine.new { stackSize := 8, maxSteps := some 2 }).load
    [0xb7, 0, 0, 0, 7, 0, 0, 0, 0x05, 0, 5, 0, 0, 0, 0, 0]

/-- The trap of that jump. -/
def strayTrap : Trap :=
  { pc := 1, word := some [0x05, 0, 5, 0, 0, 0, 0, 0], fault := .jumpOutOfRange 7 2 }

/-- A trace that takes registers only. -/
def regsOnly : Trace := { insns := false, regs := true, lines := #[] }

/-- One step succeeds, and the jump that follows was decoded and executed: two lines of each kind. A
trace of the registers alone has those two of them, and no others. -/
theorem tracing_observes_stray :
    (run {} ({ trace := some .full } : Env Unit) strayAfterMove).result = some (.error strayTrap) ∧
      (∃ c ∈ attempts {} ({ trace := some .full } : Env Unit) strayAfterMove,
        (step {} c.1 c.2).result = .error strayTrap ∧ c.2.state = .running ∧
          ∃ slot, c.2.fetch {} c.2.pc = .ok slot) ∧
      ∃ lines : Array TraceLine,
        (run {} ({ trace := some .full } : Env Unit) strayAfterMove).env.trace =
            some { Trace.full with lines } ∧
          lines.countP TraceLine.isInsn = 2 ∧ lines.countP TraceLine.isRegs = 2 ∧
          (run {} ({ trace := some regsOnly } : Env Unit) strayAfterMove).env.trace =
            some { regsOnly with lines := lines.filter TraceLine.isRegs } ∧
          (lines.filter TraceLine.isRegs).size = 2 := by
  have htrap : TrapsAfter {} ({ trace := some .full } : Env Unit) strayAfterMove 1 strayTrap _ _ :=
    .mk (.cons rfl (.refl _ _)) rfl
  have hresult := congrArg Outcome.result (htrap.run (by decide))
  have htaken :
      successes {} (attempts {} ({ trace := some .full } : Env Unit) strayAfterMove) = 1 := by
    decide +kernel
  obtain ⟨-, hkinds, hruns⟩ := tracing_observes ({} : Env Unit) strayAfterMove
  obtain ⟨-, hdecoded, lines, htrace, hinsns, hregs⟩ := hruns {}
  have htwo : lines.countP TraceLine.isRegs = 2 := by
    rw [hregs, htaken, hresult]
    rfl
  refine ⟨hresult, (hdecoded strayTrap hresult).mp rfl, lines, htrace, ?_, htwo, ?_, ?_⟩
  · rw [hinsns, htaken, hresult]
    rfl
  · obtain ⟨offered, hfull, hany⟩ := hkinds [.run {}]
    have hsame : offered = lines :=
      congrArg Trace.lines (Option.some.inj (hfull.symm.trans htrace))
    have hgained := hany regsOnly
    simp only [regsOnly, Bool.and_false, Bool.and_true, Bool.false_or, Array.empty_append,
      hsame] at hgained
    exact hgained
  · rw [← Array.countP_eq_size_filter, htwo]

end Machine

end Ebpf

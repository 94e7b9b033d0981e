/-
  Runs under an optional budget. A run repeats steps until the program ends or
  traps. It looks at the budget before every step, and before it looks at
  whether the machine has stopped.

  The program does not change while it runs, so a run decodes every word of it
  once and for all. `run_eq` says that this is the same as decoding at every
  step.
-/
import Ebpf.Machine.Step

namespace Ebpf.Machine

variable {σ : Type}

/-- The budget, if the machine has one and has used it up. -/
def spentBudget? (m : Machine) : Option UInt64 :=
  m.config.maxSteps.filter (· ≤ m.steps)

/-- Repeats a step for at most `rounds` looks at the budget; no result if the program is
still going. -/
@[specialize]
def runFor (step : Env σ → Machine → Outcome σ (Except Trap Status)) :
    Nat → Env σ → Machine → Outcome σ (Option (Except Trap UInt64))
  | 0, env, m => { result := none, machine := m, env }
  | rounds + 1, env, m =>
    match m.spentBudget? with
    | some limit =>
      let t := trap env m (.budgetExhausted limit)
      { t with result := some t.result }
    | none =>
      let after := step env m
      match after.result with
      | .ok .running => runFor step rounds after.env after.machine
      | .ok (.exited r0) => { after with result := some (.ok r0) }
      | .error t => { after with result := some (.error t) }

/-- As many rounds as a run can need: one for each step that the budget still
allows and one to find it spent. A machine without a budget gets as many as
its step counter can tell apart. -/
def rounds (m : Machine) : Nat :=
  match m.config.maxSteps with
  | some limit => limit.toNat - m.steps.toNat + 1
  | none => UInt64.size

/-! ## Decoding beforehand -/

/-- What decoding gives at every word of the program. -/
def decodeAll (d : Decoder) (m : Machine) : Array (Except Fault Slot) :=
  (Array.range m.programWords).map (m.fetch d)

/-- What was decoded beforehand at the program counter; outside the table it is decoded now. -/
def lookUp (table : Array (Except Fault Slot)) (d : Decoder) (m : Machine) : Except Fault Slot :=
  match table[m.pc]? with
  | some fetched => fetched
  | none => m.fetch d m.pc

/-- Executes the instruction at the program counter, decoded beforehand. -/
def stepDecoded (table : Array (Except Fault Slot)) (d : Decoder) (env : Env σ) (m : Machine) :
    Outcome σ (Except Trap Status) :=
  stepFetched env m (lookUp table d m)

/-- Runs a machine until its program ends or traps. -/
def run (d : Decoder) (env : Env σ) (m : Machine) : Outcome σ (Option (Except Trap UInt64)) :=
  runFor (stepDecoded (m.decodeAll d) d) m.rounds env m

theorem lookUp_decodeAll (d : Decoder) {m m' : Machine} (h : m'.code = m.code) :
    lookUp (m.decodeAll d) d m' = m'.fetch d m'.pc := by
  unfold lookUp
  split
  · next fetched hf =>
    rw [fetch_congr d h]
    simp only [decodeAll, Array.getElem?_map, Option.map_eq_some_iff] at hf
    obtain ⟨i, hi, rfl⟩ := hf
    rw [Array.getElem?_range] at hi
    split at hi
    · cases hi
      rfl
    · cases hi
  · rfl

theorem runFor_stepDecoded (d : Decoder) {m m' : Machine} (h : m'.code = m.code) (n : Nat)
    (env : Env σ) :
    runFor (stepDecoded (m.decodeAll d) d) n env m' = runFor (step d) n env m' := by
  induction n generalizing env m' with
  | zero => rfl
  | succ n ih =>
    have hstep : stepDecoded (m.decodeAll d) d env m' = step d env m' := by
      rw [stepDecoded, lookUp_decodeAll d h, step]
    rw [runFor, runFor, hstep]
    split
    · rfl
    · dsimp only
      split
      · exact ih ((code_step d env m').trans h) _
      · rfl
      · rfl

/-- A run repeats single steps. -/
theorem run_eq (d : Decoder) (env : Env σ) (m : Machine) :
    run d env m = runFor (step d) m.rounds env m :=
  runFor_stepDecoded d rfl _ _

end Ebpf.Machine

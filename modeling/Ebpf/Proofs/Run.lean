/-
  Runs as repeated steps. `run_spent` and `run_of_error` are the first round of
  a run, where it finds its budget spent or its first step traps.
  `runFor_invariant` carries what single steps and spent budgets preserve to
  every point of a run; it is the only induction over rounds that a statement
  about what runs preserve needs.
-/
import Ebpf.Machine.Run
import Ebpf.Proofs.Step

namespace Ebpf.Machine

variable {σ : Type}

/-- A budget is spent when as many steps were counted as it allows, or more. -/
theorem spentBudget?_eq_some_iff {m : Machine} {limit : UInt64} :
    m.spentBudget? = some limit ↔ m.config.maxSteps = some limit ∧ limit ≤ m.steps := by
  unfold spentBudget?
  rw [Option.filter_eq_some_iff]
  simp

theorem spentBudget?_eq_none_iff {m : Machine} :
    m.spentBudget? = none ↔ ∀ limit, m.config.maxSteps = some limit → m.steps < limit := by
  unfold spentBudget?
  rw [Option.filter_eq_none_iff]
  simp [UInt64.not_le]

/-! ## The first round -/

/-- A run looks at its budget at least once. -/
theorem exists_rounds_eq_succ (m : Machine) : ∃ n, m.rounds = n + 1 := by
  unfold rounds
  split
  · exact ⟨_, rfl⟩
  · exact ⟨UInt64.size - 1, rfl⟩

/-- A run that finds its budget spent stops there, whatever state the machine is in. -/
theorem run_spent {m : Machine} {limit : UInt64} (d : Decoder) (env : Env σ)
    (hb : m.spentBudget? = some limit) :
    (run d env m).result = some (trap env m (.budgetExhausted limit)).result ∧
      (run d env m).machine = { m with state := .faulted .control } := by
  obtain ⟨n, hn⟩ := m.exists_rounds_eq_succ
  rw [run_eq, hn, runFor, hb]
  exact ⟨rfl, rfl⟩

theorem run_of_error {d : Decoder} {env : Env σ} {m : Machine} {t : Trap}
    (hb : m.spentBudget? = none) (ht : (step d env m).result = .error t) :
    (run d env m).result = some (.error t) ∧ (run d env m).machine = (step d env m).machine := by
  obtain ⟨n, hn⟩ := m.exists_rounds_eq_succ
  rw [run_eq, hn, runFor, hb]
  dsimp only
  rw [ht]
  exact ⟨rfl, rfl⟩

/-! ## Invariants -/

section Invariant

variable {step : Env σ → Machine → Outcome σ (Except Trap Status)} {I : Env σ → Machine → Prop}

/-- What every step keeps, and every trap for a spent budget, holds after any number of rounds. -/
theorem runFor_invariant
    (hstep : ∀ env m, I env m → I (step env m).env (step env m).machine)
    (hspent : ∀ env m limit, I env m → m.spentBudget? = some limit →
      I (trap env m (.budgetExhausted limit) : Outcome σ (Except Trap UInt64)).env
        (trap env m (.budgetExhausted limit) : Outcome σ (Except Trap UInt64)).machine)
    (n : Nat) {env : Env σ} {m : Machine} (h : I env m) :
    I (runFor step n env m).env (runFor step n env m).machine := by
  induction n generalizing env m with
  | zero => exact h
  | succ n ih =>
    rw [runFor]
    split
    · next limit hl => exact hspent env m limit h hl
    · have hnext := hstep env m h
      dsimp only
      split
      · exact ih hnext
      · exact hnext
      · exact hnext

end Invariant

/-- No run changes the program or the configuration. -/
theorem code_run (d : Decoder) (env : Env σ) (m : Machine) :
    (run d env m).machine.code = m.code := by
  rw [run_eq]
  refine runFor_invariant (I := fun _ m' => m'.code = m.code) ?_ ?_ _ rfl
  · intro env m' h
    exact (code_step d env m').trans h
  · intro env m' limit h _
    exact h

end Ebpf.Machine

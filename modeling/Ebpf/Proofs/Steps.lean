/-
  Steps one after the other. `Steps` takes a machine through a number of steps
  that all go on; `ExitsAt` and `TrapsAfter` are the two ways in which such a
  sequence ends. Single steps do not look at a budget, so these are the
  unlimited executions of a program.

  `steps_trichotomy`: within any number of steps a machine exits, traps or
  goes on. `run_cases` gives the same three outcomes for a run, with the spent
  budget as a fourth; it is proved by computing the run along the steps, not by
  another induction over its rounds.

  `Holds` ties a machine to the section of code that it executes, and no
  execution loosens the tie.
-/
import Ebpf.Proofs.Run

namespace Ebpf.Machine

variable {σ : Type}

/-! ## Sequences of steps -/

/-- `n` steps one after the other, none of which ends or stops the program. -/
inductive Steps (d : Decoder) : Nat → Env σ → Machine → Env σ → Machine → Prop
  | refl (env : Env σ) (m : Machine) : Steps d 0 env m env m
  | cons {n : Nat} {env env' : Env σ} {m m' : Machine}
      (h : (step d env m).result = .ok .running)
      (rest : Steps d n (step d env m).env (step d env m).machine env' m') :
      Steps d (n + 1) env m env' m'

/-- The `n`-th step from a machine ends the program; all steps before it went on. -/
inductive ExitsAt (d : Decoder) (env : Env σ) (m : Machine) :
    Nat → UInt64 → Env σ → Machine → Prop
  | mk {n : Nat} {env' : Env σ} {m' : Machine} {r0 : UInt64} (h : Steps d n env m env' m')
      (hr : (step d env' m').result = .ok (.exited r0)) :
      ExitsAt d env m (n + 1) r0 (step d env' m').env (step d env' m').machine

/-- The step tried after `n` steps that went on traps. -/
inductive TrapsAfter (d : Decoder) (env : Env σ) (m : Machine) :
    Nat → Trap → Env σ → Machine → Prop
  | mk {n : Nat} {env' : Env σ} {m' : Machine} {t : Trap} (h : Steps d n env m env' m')
      (hr : (step d env' m').result = .error t) :
      TrapsAfter d env m n t (step d env' m').env (step d env' m').machine

variable {d : Decoder} {n : Nat} {env env' : Env σ} {m m' : Machine}

theorem Steps.snoc (h : Steps d n env m env' m') (hr : (step d env' m').result = .ok .running) :
    Steps d (n + 1) env m (step d env' m').env (step d env' m').machine := by
  induction h with
  | refl env m => exact .cons hr (.refl _ _)
  | cons hfirst _ ih => exact .cons hfirst (ih hr)

theorem ExitsAt.pos {r0 : UInt64} (h : ExitsAt d env m n r0 env' m') : 0 < n := by
  cases h with
  | mk h hr => exact Nat.succ_pos _

/-- Within `n` steps a machine exits or traps, or all of them go on. -/
theorem steps_trichotomy (d : Decoder) (env : Env σ) (m : Machine) (n : Nat) :
    (∃ k r0 env' m', k ≤ n ∧ ExitsAt d env m k r0 env' m') ∨
      (∃ k t env' m', k < n ∧ TrapsAfter d env m k t env' m') ∨
      ∃ env' m', Steps d n env m env' m' := by
  induction n with
  | zero => exact .inr (.inr ⟨env, m, .refl env m⟩)
  | succ n ih =>
    rcases ih with ⟨k, r0, env', m', hk, hexit⟩ | ⟨k, t, env', m', hk, htrap⟩ | ⟨env', m', hgo⟩
    · exact .inl ⟨k, r0, env', m', Nat.le_succ_of_le hk, hexit⟩
    · exact .inr (.inl ⟨k, t, env', m', Nat.lt_succ_of_lt hk, htrap⟩)
    · cases hr : (step d env' m').result with
      | error t => exact .inr (.inl ⟨n, t, _, _, Nat.lt_succ_self n, .mk hgo hr⟩)
      | ok status =>
        cases status with
        | running => exact .inr (.inr ⟨_, _, hgo.snoc hr⟩)
        | exited r0 => exact .inl ⟨n + 1, r0, _, _, Nat.le_refl _, .mk hgo hr⟩

/-! ## What sequences keep -/

theorem Steps.code (h : Steps d n env m env' m') : m'.code = m.code := by
  induction h with
  | refl => rfl
  | cons _ _ ih => exact ih.trans (code_step d _ _)

/-- A step that does not trap is counted. -/
theorem StepEffect.steps_of_ok {o : Outcome σ (Except Trap Status)} (h : StepEffect d env m o)
    {status : Status} (hs : o.result = .ok status) : o.machine.steps = m.steps + 1 := by
  cases h with
  | halted | undecoded | refused | stray => cases hs
  | next | branch | exit => rfl

/-- A step that traps is not counted. -/
theorem StepEffect.steps_of_error {o : Outcome σ (Except Trap Status)} (h : StepEffect d env m o)
    {t : Trap} (ht : o.result = .error t) : o.machine.steps = m.steps := by
  cases h with
  | halted | undecoded | stray => rfl
  | @refused slot f hm hd he =>
    show (execAt env m slot.insn).machine.steps = m.steps
    rw [(execAt_effect env m slot.insn).confined]
  | next | branch | exit => cases ht

/-- The count after one more step, as long as it has room. -/
theorem toNat_steps_of_ok {status : Status} (h : (step d env m).result = .ok status)
    (hroom : m.steps.toNat + 1 < UInt64.size) :
    (step d env m).machine.steps.toNat = m.steps.toNat + 1 := by
  rw [(step_effect d env m).steps_of_ok h, UInt64.toNat_add, UInt64.toNat_one]
  exact Nat.mod_eq_of_lt hroom

theorem Steps.toNat_steps (h : Steps d n env m env' m') (hroom : m.steps.toNat + n < UInt64.size) :
    m'.steps.toNat = m.steps.toNat + n := by
  induction h with
  | refl => rfl
  | cons hr _ ih =>
    have hfirst := toNat_steps_of_ok hr (by omega)
    have hrest := ih (by omega)
    omega

theorem ExitsAt.toNat_steps {r0 : UInt64} (h : ExitsAt d env m n r0 env' m')
    (hroom : m.steps.toNat + n < UInt64.size) : m'.steps.toNat = m.steps.toNat + n := by
  cases h with
  | mk h hr =>
    have hgo := h.toNat_steps (by omega)
    have hlast := toNat_steps_of_ok hr (by omega)
    omega

/-! ## Runs along sequences of steps -/

/-- The number of steps that a run may take. -/
def allowance (m : Machine) : Nat :=
  match m.config.maxSteps with
  | some limit => limit.toNat - m.steps.toNat
  | none => UInt64.size

theorem allowance_of_some {limit : UInt64} (hl : m.config.maxSteps = some limit) :
    m.allowance = limit.toNat - m.steps.toNat := by
  rw [allowance, hl]

theorem rounds_of_some {limit : UInt64} (hl : m.config.maxSteps = some limit) :
    m.rounds = m.allowance + 1 := by
  rw [allowance_of_some hl, rounds, hl]

theorem rounds_of_none (hl : m.config.maxSteps = none) : m.rounds = m.allowance := by
  rw [allowance, rounds, hl]

theorem allowance_le_rounds (m : Machine) : m.allowance ≤ m.rounds := by
  cases hl : m.config.maxSteps with
  | some limit =>
    rw [rounds_of_some hl]
    exact Nat.le_succ _
  | none => exact Nat.le_of_eq (rounds_of_none hl).symm

theorem spentBudget?_of_allowance_pos (h : 0 < m.allowance) : m.spentBudget? = none := by
  rw [spentBudget?_eq_none_iff]
  intro limit hl
  rw [allowance_of_some hl] at h
  rw [UInt64.lt_iff_toNat_lt]
  omega

theorem spentBudget?_of_allowance_zero {limit : UInt64} (hl : m.config.maxSteps = some limit)
    (h : m.allowance = 0) : m.spentBudget? = some limit := by
  rw [allowance_of_some hl] at h
  rw [spentBudget?_eq_some_iff, UInt64.le_iff_toNat_le]
  exact ⟨hl, by omega⟩

/-- Every step uses up one step of the allowance, if it is the budget's. -/
theorem allowance_step {status : Status} {limit : UInt64} (hl : m.config.maxSteps = some limit)
    (h : (step d env m).result = .ok status) (hpos : 0 < m.allowance) :
    (step d env m).machine.allowance + 1 = m.allowance := by
  have hconfig : (step d env m).machine.config = m.config := congrArg Prod.snd (code_step d env m)
  have hl' : (step d env m).machine.config.maxSteps = some limit := by rw [hconfig, hl]
  rw [allowance_of_some hl] at hpos ⊢
  have hlimit := limit.toNat_lt_size
  rw [allowance_of_some hl', toNat_steps_of_ok h (by omega)]
  omega

theorem Steps.allowance {limit : UInt64} (h : Steps d n env m env' m')
    (hl : m.config.maxSteps = some limit) (hn : n ≤ m.allowance) : m'.allowance = m.allowance - n := by
  induction h with
  | refl => rfl
  | @cons n env env' m m' hr _ ih =>
    have hconfig : (step d env m).machine.config = m.config :=
      congrArg Prod.snd (code_step d env m)
    have hfirst := allowance_step hl hr (by omega)
    have hrest := ih (by rw [hconfig, hl]) (by omega)
    omega

theorem Steps.le_allowance {k : Nat} (h : Steps d n env m env' m') (hk : n + k ≤ m.allowance) :
    k ≤ m'.allowance := by
  cases hl : m.config.maxSteps with
  | some limit =>
    rw [h.allowance hl (by omega)]
    omega
  | none =>
    have hconfig : m'.config = m.config := congrArg Prod.snd h.code
    rw [Machine.allowance, hl] at hk
    rw [Machine.allowance, hconfig, hl]
    exact Nat.le_of_add_left_le hk

/-- A run goes along with the steps that it may take. -/
theorem Steps.runFor (h : Steps d n env m env' m') (hn : n ≤ m.allowance) (k : Nat) :
    Machine.runFor (step d) (n + k) env m = Machine.runFor (step d) k env' m' := by
  induction h with
  | refl => rw [Nat.zero_add]
  | @cons n env env' m m' hr _ ih =>
    have hfirst : Steps d 1 env m (step d env m).env (step d env m).machine := .cons hr (.refl _ _)
    have hbudget := spentBudget?_of_allowance_pos (m := m) (by omega)
    rw [Nat.add_right_comm, Machine.runFor, hbudget]
    dsimp only
    rw [hr]
    exact ih (hfirst.le_allowance (by omega))

/-- A run reaches every step that it may take, with budget left for it. -/
theorem Steps.run_next (h : Steps d n env m env' m') (hn : n < m.allowance) :
    m'.spentBudget? = none ∧
      ∃ k, run d env m = Machine.runFor (step d) (k + 1) env' m' := by
  have hrounds := m.allowance_le_rounds
  obtain ⟨k, hk⟩ := Nat.exists_eq_add_of_lt (Nat.lt_of_lt_of_le hn hrounds)
  refine ⟨spentBudget?_of_allowance_pos (h.le_allowance hn), k, ?_⟩
  rw [run_eq, hk, Nat.add_assoc, h.runFor (Nat.le_of_lt hn)]

theorem ExitsAt.run {r0 : UInt64} (h : ExitsAt d env m n r0 env' m') (hn : n ≤ m.allowance) :
    Machine.run d env m = { result := some (.ok r0), machine := m', env := env' } := by
  cases h with
  | mk h hr =>
    obtain ⟨hbudget, k, hk⟩ := h.run_next hn
    rw [hk, Machine.runFor, hbudget]
    dsimp only
    rw [hr]

theorem TrapsAfter.run {t : Trap} (h : TrapsAfter d env m n t env' m') (hn : n < m.allowance) :
    Machine.run d env m = { result := some (.error t), machine := m', env := env' } := by
  cases h with
  | mk h hr =>
    obtain ⟨hbudget, k, hk⟩ := h.run_next hn
    rw [hk, Machine.runFor, hbudget]
    dsimp only
    rw [hr]

/-- The outcome of a run that finds its budget spent at a machine. -/
def exhaust (env : Env σ) (m : Machine) (limit : UInt64) : Outcome σ (Option (Except Trap UInt64)) :=
  let t : Trap := { pc := m.pc, word := m.wordAt? m.pc, fault := .budgetExhausted limit }
  { result := some (.error t)
    machine := { m with state := .faulted .control }
    env := env.record [.fault t] }

/-- A run that takes all the steps of its budget stops where they lead. -/
theorem Steps.run_spent {limit : UInt64} (h : Steps d m.allowance env m env' m')
    (hl : m.config.maxSteps = some limit) :
    run d env m = exhaust env' m' limit := by
  have hconfig : m'.config = m.config := congrArg Prod.snd h.code
  have hzero : m'.allowance = 0 := by
    rw [h.allowance hl (Nat.le_refl _), Nat.sub_self]
  have hbudget := spentBudget?_of_allowance_zero (by rw [hconfig, hl]) hzero
  rw [run_eq, rounds_of_some hl, h.runFor (Nat.le_refl _), Machine.runFor, hbudget]
  rfl

/-- What a run can come to. Only a run without a budget can be without a result. -/
theorem run_cases (d : Decoder) (env : Env σ) (m : Machine) :
    (∃ n r0 env' m', n ≤ m.allowance ∧ ExitsAt d env m n r0 env' m' ∧
        run d env m = { result := some (.ok r0), machine := m', env := env' }) ∨
      (∃ n t env' m', n < m.allowance ∧ TrapsAfter d env m n t env' m' ∧
        run d env m = { result := some (.error t), machine := m', env := env' }) ∨
      ∃ env' m', Steps d m.allowance env m env' m' ∧
        ((∃ limit, m.config.maxSteps = some limit ∧ run d env m = exhaust env' m' limit) ∨
          (m.config.maxSteps = none ∧
            run d env m = { result := none, machine := m', env := env' })) := by
  rcases steps_trichotomy d env m m.allowance with
    ⟨n, r0, env', m', hn, hexit⟩ | ⟨n, t, env', m', hn, htrap⟩ | ⟨env', m', hgo⟩
  · exact .inl ⟨n, r0, env', m', hn, hexit, hexit.run hn⟩
  · exact .inr (.inl ⟨n, t, env', m', hn, htrap, htrap.run hn⟩)
  · refine .inr (.inr ⟨env', m', hgo, ?_⟩)
    cases hl : m.config.maxSteps with
    | some limit => exact .inl ⟨limit, rfl, hgo.run_spent hl⟩
    | none =>
      refine .inr ⟨rfl, ?_⟩
      rw [run_eq, rounds_of_none hl, ← Nat.add_zero m.allowance, hgo.runFor (Nat.le_refl _),
        Machine.runFor]

/-- A run that returns has come to an exit. -/
theorem exists_exitsAt_of_run {r0 : UInt64} (h : (run d env m).result = some (.ok r0)) :
    ∃ n env' m', ExitsAt d env m n r0 env' m' := by
  rcases run_cases d env m with ⟨n, r0', env', m', -, hexit, hrun⟩ |
    ⟨n, t, env', m', -, -, hrun⟩ | ⟨env', m', -, ⟨limit, -, hrun⟩ | ⟨-, hrun⟩⟩ <;>
    rw [hrun] at h <;> cases h
  exact ⟨n, env', m', hexit⟩

/-- A run that traps has come to a step that traps, or its budget is spent. -/
theorem exists_trapsAfter_of_run {t : Trap} (h : (run d env m).result = some (.error t)) :
    (∃ n env' m', TrapsAfter d env m n t env' m') ∨ ∃ limit, t.fault = .budgetExhausted limit := by
  rcases run_cases d env m with ⟨n, r0, env', m', -, -, hrun⟩ |
    ⟨n, t', env', m', -, htrap, hrun⟩ | ⟨env', m', -, ⟨limit, -, hrun⟩ | ⟨-, hrun⟩⟩ <;>
    rw [hrun] at h <;> cases h
  · exact .inl ⟨n, env', m', htrap⟩
  · exact .inr ⟨limit, rfl⟩

/-! ## The code that is executed -/

/-- A machine whose program is a section of code, read in a byte order. -/
structure Holds (m : Machine) (o : ByteOrder) (code : List UInt8) : Prop where
  order : m.config.order = o
  program : m.program.toList = code

theorem holds_load (m : Machine) (code : List UInt8) :
    (m.load code).Holds m.config.order code :=
  ⟨rfl, rfl⟩

theorem Holds.of_code {o : ByteOrder} {code : List UInt8} (h : m.Holds o code)
    (hcode : m'.code = m.code) : m'.Holds o code := by
  have hprogram : m'.program = m.program := congrArg Prod.fst hcode
  have hconfig : m'.config = m.config := congrArg Prod.snd hcode
  refine ⟨?_, ?_⟩
  · rw [hconfig, h.order]
  · rw [hprogram, h.program]

theorem Holds.fetch {o : ByteOrder} {code : List UInt8} (h : m.Holds o code)
    (d : Decoder) (pc : Nat) : m.fetch d pc = d.decode o (code.drop (Word.size * pc)) := by
  rw [fetch_eq_decode, h.order, h.program]

end Ebpf.Machine

/-
  Machines that have stopped. A single step on such a machine is refused and
  changes nothing. A run looks at its budget first: with budget left it is
  refused like a step, but with the budget spent it reports the budget instead
  and marks the machine as faulted, even one that had exited.

  `halted_absorbing_iff` gives the exact condition under which a stopped machine
  stays as it is through a sequence of steps and runs.
-/
import Ebpf.Proofs.Session

namespace Ebpf

variable {σ : Type}

/-! ## Calls and their answers -/

namespace Drive

/-- The trap that a call returns, if it returns one. -/
def trap? (m : Machine) : Drive σ → Option Trap
  | step d env =>
    match (Machine.step d env m).result with
    | .error t => some t
    | .ok _ => none
  | run d env =>
    match (Machine.run d env m).result with
    | some (.error t) => some t
    | _ => none

/-- The answers to a sequence of calls: the trap of each, and the machine after it. -/
def answers (m : Machine) : List (Drive σ) → List (Option Trap × Machine)
  | [] => []
  | c :: calls => (c.trap? m, c.after m) :: answers (c.after m) calls

/-- A call that finds the budget of the machine spent. Single steps do not look at it. -/
def FindsSpent (m : Machine) : Drive σ → Prop
  | step _ _ => False
  | run _ _ => ∃ limit, m.config.maxSteps = some limit ∧ limit ≤ m.steps

end Drive

/-- An answer that refuses the call because the machine has stopped, and leaves the machine as it
was. -/
def Machine.Refuses (m : Machine) (answer : Option Trap × Machine) : Prop :=
  (∃ t, answer.1 = some t ∧ t.fault = .halted m.state) ∧ answer.2 = m

/-! ## Single calls on a stopped machine -/

namespace Drive

variable {m : Machine}

theorem refuses_of_not_findsSpent (hm : m.state ≠ .running) {c : Drive σ}
    (hc : ¬ c.FindsSpent m) : m.Refuses (c.trap? m, c.after m) := by
  have hstep (d : Decoder) (env : Env σ) := Machine.step_halted d env hm
  cases c with
  | step d env =>
    dsimp only [trap?, after]
    rw [hstep d env]
    exact ⟨⟨_, rfl, rfl⟩, rfl⟩
  | run d env =>
    have hb : m.spentBudget? = none := by
      rw [Machine.spentBudget?_eq_none_iff]
      intro limit hl
      rw [← UInt64.not_le]
      intro hle
      exact hc ⟨limit, hl, hle⟩
    have hr : (Machine.step d env m).result = .error _ := congrArg Outcome.result (hstep d env)
    obtain ⟨hresult, hmachine⟩ := Machine.run_of_error hb hr
    dsimp only [trap?, after]
    rw [hresult, hmachine, hstep d env]
    exact ⟨⟨_, rfl, rfl⟩, rfl⟩

theorem answer_of_findsSpent {c : Drive σ} (hc : c.FindsSpent m) :
    (∃ t limit, c.trap? m = some t ∧ t.fault = .budgetExhausted limit) ∧
      c.after m = { m with state := .faulted .control } := by
  cases c with
  | step d env => cases hc
  | run d env =>
    obtain ⟨limit, hl⟩ := hc
    obtain ⟨hresult, hmachine⟩ :=
      Machine.run_spent d env (Machine.spentBudget?_eq_some_iff.mpr hl)
    dsimp only [trap?, after]
    rw [hresult, hmachine]
    exact ⟨⟨_, limit, rfl, rfl⟩, rfl⟩

theorem not_refuses_of_findsSpent {c : Drive σ} (hc : c.FindsSpent m) :
    ¬ m.Refuses (c.trap? m, c.after m) := by
  rintro ⟨⟨t, ht, hf⟩, -⟩
  obtain ⟨⟨t', limit, ht', hf'⟩, -⟩ := answer_of_findsSpent hc
  have heq : t = t' := Option.some.inj (ht.symm.trans ht')
  rw [heq, hf'] at hf
  cases hf

theorem refuses_iff (hm : m.state ≠ .running) (c : Drive σ) :
    m.Refuses (c.trap? m, c.after m) ↔ ¬ c.FindsSpent m :=
  ⟨fun h hc => not_refuses_of_findsSpent hc h, refuses_of_not_findsSpent hm⟩

/-- Whatever is called on a stopped machine, it traps, and nothing changes but the run state. -/
theorem answer_of_halted (hm : m.state ≠ .running) (c : Drive σ) :
    (c.trap? m).isSome ∧ (c.after m = m ∨ c.after m = { m with state := .faulted .control }) := by
  by_cases hc : c.FindsSpent m
  · obtain ⟨⟨t, limit, ht, -⟩, hmachine⟩ := answer_of_findsSpent hc
    rw [ht]
    exact ⟨rfl, .inr hmachine⟩
  · obtain ⟨⟨t, ht, -⟩, hmachine⟩ := refuses_of_not_findsSpent hm hc
    dsimp only at ht hmachine
    rw [ht]
    exact ⟨rfl, .inl hmachine⟩

end Drive

/-! ## Sequences of calls -/

namespace Machine

theorem refuses_answers_iff {m : Machine} (hm : m.state ≠ .running) (calls : List (Drive σ)) :
    (∀ a ∈ Drive.answers m calls, m.Refuses a) ↔ ∀ c ∈ calls, ¬ c.FindsSpent m := by
  induction calls with
  | nil => simp [Drive.answers]
  | cons c calls ih =>
    rw [Drive.answers, List.forall_mem_cons, List.forall_mem_cons, Drive.refuses_iff hm]
    -- a call that was refused leaves the machine itself behind for the calls after it
    refine and_congr_right fun hc => ?_
    have hafter : c.after m = m := (Drive.refuses_of_not_findsSpent hm hc).2
    rw [hafter]
    exact ih

theorem answers_of_halted {m : Machine} (hm : m.state ≠ .running) (calls : List (Drive σ)) :
    ∀ a ∈ Drive.answers m calls,
      a.1.isSome ∧ (a.2 = m ∨ a.2 = { m with state := .faulted .control }) := by
  induction calls generalizing m with
  | nil => simp [Drive.answers]
  | cons c calls ih =>
    rw [Drive.answers, List.forall_mem_cons]
    have hc := Drive.answer_of_halted hm c
    refine ⟨hc, ?_⟩
    rcases hc.2 with hafter | hafter
    · rw [hafter]
      exact ih hm
    · rw [hafter]
      intro a ha
      have hrest := ih (m := { m with state := .faulted .control }) (by simp) a ha
      exact ⟨hrest.1, .inr (hrest.2.elim id id)⟩

/-- When a stopped machine is absorbing. Every call of a sequence of steps and runs is refused and
leaves the machine as it was if and only if no run among them finds the budget spent. In any case
every call traps, and nothing of the machine changes but its run state, to a control fault. -/
theorem halted_absorbing_iff (m : Machine) (hm : m.state ≠ .running) (calls : List (Drive σ)) :
    ((∀ a ∈ Drive.answers m calls,
        (∃ t, a.1 = some t ∧ t.fault = .halted m.state) ∧ a.2 = m) ↔
      ∀ c ∈ calls, ¬ c.FindsSpent m) ∧
    ∀ a ∈ Drive.answers m calls,
      a.1.isSome ∧ (a.2 = m ∨ a.2 = { m with state := .faulted .control }) :=
  ⟨refuses_answers_iff hm calls, answers_of_halted hm calls⟩

/-- A machine whose program is one exit, after its first step, under a budget. -/
def exitedUnder (limit : UInt64) : Machine :=
  let m := Machine.new { stackSize := 8, maxSteps := some limit }
  (step {} ({} : Env Unit) (m.load [0x95, 0, 0, 0, 0, 0, 0, 0])).machine

/-- Having exited with budget to spare, the machine refuses a step and then a run. -/
theorem halted_absorbing_iff_spare :
    (exitedUnder 2).state = .exited ∧
      ∀ a ∈ Drive.answers (exitedUnder 2) [.step {} ({} : Env Unit), .run {} {}],
        (∃ t, a.1 = some t ∧ t.fault = .halted .exited) ∧ a.2 = exitedUnder 2 := by
  have hstate : (exitedUnder 2).state = .exited := rfl
  have hspare : ∀ c ∈ [Drive.step {} ({} : Env Unit), .run {} {}],
      ¬ c.FindsSpent (exitedUnder 2) := by
    intro c hc
    simp only [List.mem_cons, List.not_mem_nil, or_false] at hc
    rcases hc with rfl | rfl
    · exact id
    · rintro ⟨limit, hl, hle⟩
      have hlimit : limit = 2 := (Option.some.inj hl).symm
      rw [hlimit] at hle
      exact absurd hle (by decide)
  refine ⟨hstate, ?_⟩
  rw [← hstate]
  exact (halted_absorbing_iff (exitedUnder 2) (by rw [hstate]; decide) _).1.mpr hspare

/-- Having exited on the last step of its budget, the machine does not survive a run: it becomes
faulted, and the trap is about the budget. -/
theorem exited_run_spent :
    (exitedUnder 1).state = .exited ∧
      (run {} ({} : Env Unit) (exitedUnder 1)).machine.state = .faulted .control ∧
      (run {} ({} : Env Unit) (exitedUnder 1)).result =
        some (.error { pc := 0
                       word := some [0x95, 0, 0, 0, 0, 0, 0, 0]
                       fault := .budgetExhausted 1 }) := by
  have hspent : (exitedUnder 1).spentBudget? = some 1 :=
    spentBudget?_eq_some_iff.mpr ⟨rfl, by decide⟩
  obtain ⟨hresult, hmachine⟩ := run_spent {} ({} : Env Unit) hspent
  refine ⟨rfl, ?_, hresult⟩
  rw [hmachine]

end Machine

end Ebpf

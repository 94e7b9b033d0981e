/-
  Runs under a budget, compared with steps under none. A budget changes nothing
  that a single step does (`step_withBudget`), so machines that differ in their
  budgets alone take the same steps, as far as their runs let them.

  `run_prefix` is the comparison: a run under a budget ends, and it is the
  longest beginning of the unlimited sequence of steps that the budget has room
  for. It gives the boundaries exactly. An exit may use up the last step; a trap
  has to come while a step is left; and a machine whose count is at or past the
  limit takes no step at all.
-/
import Ebpf.Proofs.Steps

namespace Ebpf

variable {σ : Type}

/-! ## The same machine under another budget -/

/-- A machine with another budget. -/
def Machine.withBudget (m : Machine) (budget : Option UInt64) : Machine :=
  { m with config := { m.config with maxSteps := budget } }

/-- The same outcome with another budget. -/
def Outcome.withBudget {α : Type} (o : Outcome σ α) (budget : Option UInt64) : Outcome σ α :=
  { o with machine := o.machine.withBudget budget }

/-- The same attempt with another budget. -/
def Machine.Attempt.withBudget (a : Attempt) (budget : Option UInt64) : Attempt :=
  { a with machine := a.machine.withBudget budget }

namespace Machine

variable (m : Machine) (budget : Option UInt64)

theorem writeRegister_withBudget (r : Reg) (v : UInt64) :
    (m.withBudget budget).writeRegister r v = (m.writeRegister r v).withBudget budget := by
  unfold writeRegister
  split <;> rfl

theorem storeCell_withBudget (addr : Int64) (size : Size) (v : UInt64) :
    (m.withBudget budget).storeCell addr size v = (m.storeCell addr size v).withBudget budget := by
  unfold storeCell
  rw [apply_ite (Attempt.withBudget · budget)]
  rfl

theorem execLoad_withBudget (i : Insn) (size : Size) :
    (m.withBudget budget).execLoad i size = (m.execLoad i size).withBudget budget := by
  have hcell : (m.withBudget budget).loadCell ((m.withBudget budget).address i.src i.off) size =
      m.loadCell (m.address i.src i.off) size := rfl
  unfold execLoad
  rw [hcell]
  split
  · rfl
  · exact writeRegister_withBudget m budget i.dst _

theorem execAtomicAdd_withBudget (i : Insn) (size : Size) :
    (m.withBudget budget).execAtomicAdd i size = (m.execAtomicAdd i size).withBudget budget := by
  have hcell : (m.withBudget budget).loadCell ((m.withBudget budget).address i.dst i.off) size =
      m.loadCell (m.address i.dst i.off) size := rfl
  unfold execAtomicAdd
  rw [hcell]
  split
  · rfl
  · exact storeCell_withBudget m budget _ size _

theorem execLoadPacket_withBudget (packet : Option Packet) (i : Insn) (size : Size)
    (indirect : Bool) :
    (m.withBudget budget).execLoadPacket packet i size indirect =
      (m.execLoadPacket packet i size indirect).withBudget budget := by
  have haddr : (m.withBudget budget).packetAddress i indirect = m.packetAddress i indirect := rfl
  unfold execLoadPacket
  cases packet with
  | none => rfl
  | some p =>
    dsimp only
    rw [haddr]
    split
    · split
      · rfl
      · exact writeRegister_withBudget m budget Reg.result _
    · rfl

theorem settle_withBudget (a : Attempt) (env : Env σ) :
    (a.withBudget budget).settle env = (a.settle env).withBudget budget := by
  unfold Attempt.settle
  cases a with
  | mk fault? machine => cases fault? <;> rfl

theorem execCall_withBudget (env : Env σ) (i : Insn) :
    execCall env (m.withBudget budget) i = (execCall env m i).withBudget budget := by
  unfold execCall
  cases env.helpers with
  | none => rfl
  | some table =>
    dsimp only
    have hcall : table.call i.imm.toUInt64.toUInt32 (m.withBudget budget).regs.args
        (m.withBudget budget).stack = table.call i.imm.toUInt64.toUInt32 m.regs.args m.stack := rfl
    rw [hcall]
    split <;> rfl

theorem exec_withBudget (env : Env σ) (i : Insn) :
    exec env (m.withBudget budget) i = (exec env m i).withBudget budget := by
  unfold exec
  cases i.op with
  | alu | swap =>
    dsimp only
    rw [← settle_withBudget, ← writeRegister_withBudget]
    rfl
  | loadImm64 =>
    dsimp only
    rw [← settle_withBudget, ← writeRegister_withBudget]
  | loadPacket size indirect =>
    dsimp only
    rw [← settle_withBudget, ← execLoadPacket_withBudget]
  | load size =>
    dsimp only
    rw [← settle_withBudget, ← execLoad_withBudget]
  | store size source =>
    dsimp only
    rw [← settle_withBudget, ← storeCell_withBudget]
    rfl
  | atomicAdd size =>
    dsimp only
    rw [← settle_withBudget, ← execAtomicAdd_withBudget]
  | call => exact execCall_withBudget m budget env i
  | ja | jmp | exit => rfl

theorem trap_withBudget {α : Type} (env : Env σ) (fault : Fault) :
    (trap env (m.withBudget budget) fault : Outcome σ (Except Trap α)) =
      (trap env m fault).withBudget budget := by
  cases fault <;> rfl

theorem advance_withBudget (env : Env σ) (words : Nat) (flow : Flow) :
    advance env (m.withBudget budget) words flow = (advance env m words flow).withBudget budget := by
  cases flow with
  | next => rfl
  | branch off =>
    rw [advance_branch, advance_branch, apply_ite (Outcome.withBudget · budget)]
    rfl
  | exit => rfl

theorem stepSlot_withBudget (env : Env σ) (slot : Slot) :
    stepSlot env (m.withBudget budget) slot = (stepSlot env m slot).withBudget budget := by
  have hexec : execAt env (m.withBudget budget) slot.insn =
      (execAt env m slot.insn).withBudget budget := exec_withBudget m budget _ _
  have hresult : (execAt env (m.withBudget budget) slot.insn).result =
      (execAt env m slot.insn).result := by
    rw [hexec]
    rfl
  cases he : (execAt env m slot.insn).result with
  | error f =>
    rw [stepSlot_of_error he, stepSlot_of_error (hresult.trans he), hexec]
    exact trap_withBudget _ budget _ f
  | ok flow =>
    rw [stepSlot_of_ok he, stepSlot_of_ok (hresult.trans he), hexec]
    exact advance_withBudget _ budget _ _ flow

/-- A step does not depend on the budget. -/
theorem step_withBudget (d : Decoder) (env : Env σ) :
    step d env (m.withBudget budget) = (step d env m).withBudget budget := by
  by_cases hm : m.state = .running
  · cases hd : m.fetch d m.pc with
    | error f =>
      rw [step_undecoded hm hd, step_undecoded (m := m.withBudget budget) hm hd]
      exact trap_withBudget m budget env f
    | ok slot =>
      rw [step_running hm hd, step_running (m := m.withBudget budget) hm hd]
      exact stepSlot_withBudget m budget env slot
  · rw [step_halted d env hm, step_halted d env (m := m.withBudget budget) hm]
    exact trap_withBudget m budget env _

/-! ## The same steps under another budget -/

variable {m} {d : Decoder} {n : Nat} {env env' : Env σ} {m' : Machine}

theorem result_step_withBudget :
    (step d env (m.withBudget budget)).result = (step d env m).result := by
  rw [step_withBudget]
  rfl

theorem Steps.withBudget (h : Steps d n env m env' m') (budget : Option UInt64) :
    Steps d n env (m.withBudget budget) env' (m'.withBudget budget) := by
  induction h with
  | refl env m => exact .refl env _
  | @cons n env env' m m' hr _ ih =>
    refine .cons ((result_step_withBudget budget).trans hr) ?_
    rw [step_withBudget]
    exact ih

theorem ExitsAt.withBudget {r0 : UInt64} (h : ExitsAt d env m n r0 env' m')
    (budget : Option UInt64) :
    ExitsAt d env (m.withBudget budget) n r0 env' (m'.withBudget budget) := by
  cases h with
  | mk h hr =>
    have hlast := ExitsAt.mk (h.withBudget budget) ((result_step_withBudget budget).trans hr)
    rw [step_withBudget] at hlast
    exact hlast

theorem TrapsAfter.withBudget {t : Trap} (h : TrapsAfter d env m n t env' m')
    (budget : Option UInt64) :
    TrapsAfter d env (m.withBudget budget) n t env' (m'.withBudget budget) := by
  cases h with
  | mk h hr =>
    have hlast := TrapsAfter.mk (h.withBudget budget) ((result_step_withBudget budget).trans hr)
    rw [step_withBudget] at hlast
    exact hlast

/-- A budget that is no smaller, or none, allows no fewer steps. -/
theorem allowance_le_withBudget {limit : UInt64} (hl : m.config.maxSteps = some limit)
    (hb : ∀ limit', budget = some limit' → limit ≤ limit') :
    m.allowance ≤ (m.withBudget budget).allowance := by
  rw [allowance_of_some hl]
  cases budget with
  | none =>
    show limit.toNat - m.steps.toNat ≤ UInt64.size
    have hlimit := limit.toNat_lt_size
    omega
  | some limit' =>
    show limit.toNat - m.steps.toNat ≤ limit'.toNat - m.steps.toNat
    have hle := UInt64.le_iff_toNat_le.mp (hb limit' rfl)
    omega

/-- A run that was not stopped by its budget ends in the same way under a larger one. -/
theorem run_withBudget {limit : UInt64} (hl : m.config.maxSteps = some limit)
    (hb : ∀ limit', budget = some limit' → limit ≤ limit')
    (hend : ∀ t, (run d env m).result = some (.error t) → t.fault ≠ .budgetExhausted limit) :
    run d env (m.withBudget budget) = (run d env m).withBudget budget := by
  have hallow := allowance_le_withBudget budget hl hb
  rcases run_cases d env m with ⟨n, r0, env', m', hn, hexit, hrun⟩ |
    ⟨n, t, env', m', hn, htrap, hrun⟩ | ⟨env', m', -, ⟨limit', hl', hrun⟩ | ⟨hnone, -⟩⟩
  · rw [hrun, (hexit.withBudget budget).run (Nat.le_trans hn hallow)]
    rfl
  · rw [hrun, (htrap.withBudget budget).run (Nat.lt_of_lt_of_le hn hallow)]
    rfl
  · have heq : limit = limit' := Option.some.inj (hl.symm.trans hl')
    subst heq
    rw [hrun] at hend
    exact absurd rfl (hend _ rfl)
  · rw [hl] at hnone
    cases hnone

/-! ## Main statement -/

/-- A run under a budget is a beginning of the unlimited sequence of steps. It ends in any case. If
the sequence reaches an exit at its `n`-th step and the budget covers `n` steps, the run returns
that `r0` and leaves that machine. If the step tried after `n` steps traps and the budget has one
more, the run returns that trap and leaves that machine. Otherwise it reports the budget, at the
machine that all the steps of the budget lead to, none if the count had reached the limit before.
So a run that does not report its budget has the same result under any larger budget and under
none, and leaves the same machine but for the budget. -/
theorem run_prefix (d : Decoder) (env : Env σ) (m : Machine) (limit : UInt64)
    (hl : m.config.maxSteps = some limit) :
    (∃ r, (run d env m).result = some r) ∧
    (∀ n r0 env' m', ExitsAt d env m n r0 env' m' → m.steps.toNat + n ≤ limit.toNat →
      run d env m = { result := some (.ok r0), machine := m', env := env' } ∧
        m'.steps.toNat = m.steps.toNat + n) ∧
    (∀ n t env' m', TrapsAfter d env m n t env' m' → m.steps.toNat + n < limit.toNat →
      run d env m = { result := some (.error t), machine := m', env := env' }) ∧
    ((∀ n r0 env' m', ExitsAt d env m n r0 env' m' → limit.toNat < m.steps.toNat + n) →
      (∀ n t env' m', TrapsAfter d env m n t env' m' → limit.toNat ≤ m.steps.toNat + n) →
      ∃ env' m', Steps d (limit.toNat - m.steps.toNat) env m env' m' ∧
        (run d env m).result =
          some (.error { pc := m'.pc, word := m'.wordAt? m'.pc, fault := .budgetExhausted limit }) ∧
        (run d env m).machine = { m' with state := .faulted .control } ∧
        m'.steps.toNat = max limit.toNat m.steps.toNat) ∧
    ∀ budget, (∀ limit', budget = some limit' → limit ≤ limit') →
      (∀ t, (run d env m).result = some (.error t) → t.fault ≠ .budgetExhausted limit) →
      run d env (m.withBudget budget) = (run d env m).withBudget budget := by
  have hallow := allowance_of_some hl
  have hlimit := limit.toNat_lt_size
  refine ⟨?_, ?_, ?_, ?_, fun budget hb hend => run_withBudget budget hl hb hend⟩
  · rcases run_cases d env m with ⟨n, r0, env', m', -, -, hrun⟩ |
      ⟨n, t, env', m', -, -, hrun⟩ | ⟨env', m', -, ⟨limit', -, hrun⟩ | ⟨hnone, -⟩⟩
    · exact ⟨_, congrArg Outcome.result hrun⟩
    · exact ⟨_, congrArg Outcome.result hrun⟩
    · exact ⟨_, congrArg Outcome.result hrun⟩
    · rw [hl] at hnone
      cases hnone
  · intro n r0 env' m' hexit hn
    exact ⟨hexit.run (by omega), hexit.toNat_steps (by omega)⟩
  · intro n t env' m' htrap hn
    exact htrap.run (by omega)
  · intro hexits htraps
    rcases run_cases d env m with ⟨n, r0, env', m', hn, hexit, -⟩ |
      ⟨n, t, env', m', hn, htrap, -⟩ | ⟨env', m', hgo, ⟨limit', hl', hrun⟩ | ⟨hnone, -⟩⟩
    · have hlate := hexits n r0 env' m' hexit
      have hpos := hexit.pos
      omega
    · have hlate := htraps n t env' m' htrap
      omega
    · have heq : limit = limit' := Option.some.inj (hl.symm.trans hl')
      subst heq
      rw [hallow] at hgo
      refine ⟨env', m', hgo, congrArg Outcome.result hrun, congrArg Outcome.machine hrun, ?_⟩
      have hstart := m.steps.toNat_lt_size
      have hcount := hgo.toNat_steps (by omega)
      omega
    · rw [hl] at hnone
      cases hnone

/-- `mov r0, 7` and `exit`, under a budget. -/
def sevenUnder (limit : UInt64) : Machine :=
  (Machine.new { stackSize := 8, maxSteps := some limit }).load
    [0xb7, 0, 0, 0, 7, 0, 0, 0, 0x95, 0, 0, 0, 0, 0, 0, 0]

/-- An exit on the last step of a budget of two counts, so the result is that under no budget. -/
theorem run_prefix_last_step :
    (sevenUnder 2).config.maxSteps = some 2 ∧
      (run {} ({} : Env Unit) (sevenUnder 2)).result = some (.ok 7) ∧
      (run {} ({} : Env Unit) ((sevenUnder 2).withBudget none)).result = some (.ok 7) := by
  have hexit : ExitsAt {} ({} : Env Unit) (sevenUnder 2) 2 7 _ _ :=
    .mk (.cons rfl (.refl _ _)) rfl
  obtain ⟨-, hexits, -, -, hlarger⟩ := run_prefix {} ({} : Env Unit) (sevenUnder 2) 2 rfl
  have hrun := (hexits 2 7 _ _ hexit (by decide)).1
  have hnone := hlarger none (by simp) (by rw [hrun]; simp)
  refine ⟨rfl, ?_, ?_⟩
  · rw [hrun]
  · rw [hnone, hrun]
    rfl

end Machine

end Ebpf

/-
  Two machines side by side. `afterCalls` takes a machine through any number of
  calls of `step`, whatever each of them comes to; a machine that has stopped is
  called all the same.

  `lockstep`: a relation that single steps keep, as long as the instructions
  executed are of some kind, holds after any number of calls, and the calls
  return the same on both sides.
-/
import Ebpf.Machine.Step

namespace Ebpf.Machine

variable {σ σ' : Type}

/-- The surroundings and the machine after `n` calls of `step`. -/
def afterCalls (d : Decoder) : Nat → Env σ → Machine → Env σ × Machine
  | 0, env, m => (env, m)
  | n + 1, env, m => afterCalls d n (step d env m).env (step d env m).machine

/-- The last of the calls, taken apart from those before it. -/
theorem afterCalls_succ (d : Decoder) (n : Nat) (env : Env σ) (m : Machine) :
    afterCalls d (n + 1) env m =
      ((step d (afterCalls d n env m).1 (afterCalls d n env m).2).env,
        (step d (afterCalls d n env m).1 (afterCalls d n env m).2).machine) := by
  induction n generalizing env m with
  | zero => rfl
  | succ n ih => exact ih _ _

/-- What the next call returns after `n` of them. -/
def answerAfter (d : Decoder) (n : Nat) (env : Env σ) (m : Machine) : Except Trap Status :=
  (step d (afterCalls d n env m).1 (afterCalls d n env m).2).result

/-- The instruction that a machine executes next, if it executes one, is of a kind. -/
def ExecutesOnly (d : Decoder) (kind : Op → Prop) (m : Machine) : Prop :=
  m.state = .running → ∀ slot, m.fetch d m.pc = .ok slot → kind slot.insn.op

theorem executesOnly_iff {d : Decoder} {kind : Op → Prop} {m : Machine} :
    (m.state = .running → ∀ slot ∈ (m.fetch d m.pc).toOption, kind slot.insn.op) ↔
      m.ExecutesOnly d kind := by
  unfold ExecutesOnly
  cases m.fetch d m.pc with
  | error f => simp [Except.toOption]
  | ok slot => simp [Except.toOption]

instance (d : Decoder) (kind : Op → Prop) [DecidablePred kind] (m : Machine) :
    Decidable (m.ExecutesOnly d kind) :=
  decidable_of_iff _ executesOnly_iff

/-- Answers are compared by `seen`, which may leave something out of the traps. -/
theorem lockstep {d : Decoder} {related : Machine → Machine → Prop} {kind : Op → Prop}
    {seen : Trap → Trap}
    (hstep : ∀ (env : Env σ) (env' : Env σ') (m m' : Machine), related m m' →
      m.ExecutesOnly d kind →
      (step d env m).result.mapError seen = (step d env' m').result.mapError seen ∧
        related (step d env m).machine (step d env' m').machine)
    (n : Nat) (env : Env σ) (env' : Env σ') {m m' : Machine} (h : related m m')
    (hkind : ∀ k ≤ n, (afterCalls d k env m).2.ExecutesOnly d kind) :
    (answerAfter d n env m).mapError seen = (answerAfter d n env' m').mapError seen ∧
      related (afterCalls d (n + 1) env m).2 (afterCalls d (n + 1) env' m').2 := by
  have hfirst := hstep env env' m m' h (hkind 0 (Nat.zero_le n))
  induction n generalizing env env' m m' with
  | zero => exact hfirst
  | succ n ih =>
    have hrest : ∀ k ≤ n,
        (afterCalls d k (step d env m).env (step d env m).machine).2.ExecutesOnly d kind :=
      fun k hk => hkind (k + 1) (Nat.succ_le_succ hk)
    exact ih _ _ hfirst.2 hrest (hstep _ _ _ _ hfirst.2 (hrest 0 (Nat.zero_le n)))

end Ebpf.Machine

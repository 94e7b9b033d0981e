/-
  Programs that only go forward halt. A run has no measure of its own: without a
  budget it may go on for ever. The flow graph supplies one. If none of its edges
  leads back, every step that goes on moves the program counter forward, because
  an instruction that falls through does so by itself and a jump that is taken is
  an edge of the graph (`Tracked.lt_pc`). The program counter never passes the end
  of the program, so the steps are no more than its words.

  `forward_programs_halt` says so of every machine that holds the section,
  whatever its registers, stack and surroundings. The bound is met by a program
  that runs through all of its words.
-/
import Ebpf.Proofs.Edges

namespace Ebpf

variable {σ : Type}

namespace FlowGraph

/-- No edge leads back, nor to where it comes from. -/
def Forward (g : FlowGraph) : Prop :=
  ∀ e ∈ g.edges, e.source < e.target

instance (g : FlowGraph) : Decidable g.Forward :=
  inferInstanceAs (Decidable (∀ e ∈ g.edges, e.source < e.target))

/-- Where no edge leads back, the walk goes on to later words only. -/
theorem Forward.lt_of_mem_successors {len pc : Nat} {vs : List Visit} {v : Visit}
    (h : (ofVisits len vs).Forward) (hv : v ∈ vs) (hpc : pc ∈ v.successors len) : v.pc < pc := by
  cases hends : v.endsBlock with
  | true =>
    obtain ⟨e, he, hsource, htarget⟩ := exists_edge_of_endsBlock hv hends hpc
    have hlt := h e he
    omega
  | false =>
    rw [Visit.successors_of_falls_through hends] at hpc
    rw [List.mem_singleton.mp hpc]
    exact v.pc_lt_next

end FlowGraph

namespace Machine

variable {d : Decoder} {o : ByteOrder} {code : List UInt8} {vs : List Visit} {n : Nat}
  {env env' : Env σ} {m m' : Machine}

/-! ## Steps forward -/

/-- A step that goes on moves the program counter forward. -/
theorem Tracked.lt_pc (h : m.Tracked (sectionWords code) vs)
    (hw : Walked d o code (sectionWords code) [] vs) (hm : m.Holds o code)
    (hforward : (FlowGraph.ofVisits (sectionWords code) vs).Forward)
    (hr : (Machine.step d env m).result = .ok .running) :
    m.pc < (Machine.step d env m).machine.pc := by
  have heff := step_effect d env m
  obtain ⟨slot, hd⟩ := heff.exists_fetch hr
  rcases heff.pc_mem_successors hr hd with hsucc | hout
  · rw [hm.programWords] at hsucc
    exact hforward.lt_of_mem_successors (h.mem_visits hw hm hd) hsucc
  · have hin := words_le_of_fetch hd
    have hpos := slot.words_pos
    omega

/-- Each of `n` steps that go on moves the program counter by one word or more. -/
theorem Steps.add_le_pc (h : Steps d n env m env' m')
    (hw : Walked d o code (sectionWords code) [] vs) (hm : m.Holds o code)
    (hforward : (FlowGraph.ofVisits (sectionWords code) vs).Forward)
    (ht : m.Tracked (sectionWords code) vs) : m.pc + n ≤ m'.pc := by
  induction h with
  | refl => exact Nat.le_refl _
  | @cons n env env' m m' hr _ ih =>
    have hfirst := ht.lt_pc hw hm hforward hr
    have hrest := ih (hm.of_code (code_step d env m)) (ht.step hw hm hr)
    omega

/-- Steps come to stand inside the program or right behind it. -/
theorem Steps.pc_le (h : Steps d n env m env' m') (hm : m.Holds o code)
    (hpc : m.pc ≤ m.programWords) : m'.pc ≤ m.programWords := by
  induction h with
  | refl => exact hpc
  | @cons n env env' m m' hr _ ih =>
    have hnext := hm.of_code (code_step d env m)
    have hle := (step_effect d env m).pc_le hpc
    rw [hm.programWords, ← hnext.programWords] at hle ⊢
    exact ih hnext hle

/-- From the first word, no more steps go on than the section has words. -/
theorem Steps.le_sectionWords {limit : Nat} (h : Steps d n env m env' m')
    (hl : sectionWords code ≤ limit) (hforward : (FlowGraph.analyze d o code limit).Forward)
    (hm : m.Holds o code) (hpc : m.pc = 0) : n ≤ m'.pc ∧ m'.pc ≤ sectionWords code := by
  have hgo := h.add_le_pc (walked_visits d o hl) hm hforward (.inl (.inl hpc))
  have hend := h.pc_le hm (by omega)
  rw [hm.programWords] at hend
  omega

/-! ## Halting -/

/-- A machine halts after `n` steps that succeed: the last of them ends the program, or the step
tried after them traps. -/
inductive HaltsAfter (d : Decoder) (env : Env σ) (m : Machine) :
    Nat → Except Trap UInt64 → Env σ → Machine → Prop
  | exit {n : Nat} {r0 : UInt64} {env' : Env σ} {m' : Machine}
      (h : ExitsAt d env m n r0 env' m') : HaltsAfter d env m n (.ok r0) env' m'
  | trap {n : Nat} {t : Trap} {env' : Env σ} {m' : Machine}
      (h : TrapsAfter d env m n t env' m') : HaltsAfter d env m n (.error t) env' m'

theorem HaltsAfter.toNat_steps {result : Except Trap UInt64}
    (h : HaltsAfter d env m n result env' m') (hroom : m.steps.toNat + n < UInt64.size) :
    m'.steps.toNat = m.steps.toNat + n := by
  cases h with
  | exit h => exact h.toNat_steps hroom
  | trap h =>
    cases h with
    | mk h hr =>
      rw [(step_effect d _ _).steps_of_error hr]
      exact h.toNat_steps hroom

/-- A run that may take the steps returns what the machine halts with. -/
theorem HaltsAfter.run {result : Except Trap UInt64} (h : HaltsAfter d env m n result env' m')
    (hn : n < m.allowance) :
    Machine.run d env m = { result := some result, machine := m', env := env' } := by
  cases h with
  | exit h => exact h.run (Nat.le_of_lt hn)
  | trap h => exact h.run hn

/-- Without edges that lead back, a machine at the first word halts, after no more steps than there
are words. -/
theorem exists_haltsAfter_of_forward {limit : Nat} (hl : sectionWords code ≤ limit)
    (hforward : (FlowGraph.analyze d o code limit).Forward) (env : Env σ) (hm : m.Holds o code)
    (hpc : m.pc = 0) :
    ∃ n ≤ sectionWords code, ∃ result env' m', HaltsAfter d env m n result env' m' := by
  rcases steps_trichotomy d env m (sectionWords code + 1) with
    ⟨n, r0, env', m', -, hexit⟩ | ⟨n, t, env', m', hn, htrap⟩ | ⟨env', m', hgo⟩
  · refine ⟨n, ?_, .ok r0, env', m', .exit hexit⟩
    cases hexit with
    | @mk n env₁ m₁ r0 h hr =>
      -- the exit is itself an instruction of the section, so it stands before the end
      obtain ⟨slot, hd⟩ := (step_effect d env₁ m₁).exists_fetch hr
      have hin := words_le_of_fetch hd
      have hpos := slot.words_pos
      rw [(hm.of_code h.code).programWords] at hin
      have hle := (h.le_sectionWords hl hforward hm hpc).1
      omega
  · exact ⟨n, Nat.lt_succ_iff.mp hn, .error t, env', m', .trap htrap⟩
  · have hle := hgo.le_sectionWords hl hforward hm hpc
    omega

/-! ## Main statement -/

/-- Programs without back edges halt. Let no edge of the flow graph of a section lead back, under a
limit that is not below the number of words. Every machine that holds the section and stands at its
first word, whatever its registers, stack and surroundings, halts after at most as many successful
steps as it has program words. So if it has no budget, a run returns what it halts with; the length
of the section has to be a 64-bit number, as in any memory. -/
theorem forward_programs_halt (d : Decoder) (o : ByteOrder) (code : List UInt8) (limit : Nat)
    (hl : sectionWords code ≤ limit) (hforward : (FlowGraph.analyze d o code limit).Forward)
    (env : Env σ) (m : Machine) (hm : m.Holds o code) (hpc : m.pc = 0) (hsteps : m.steps = 0)
    (hbudget : m.config.maxSteps = none) :
    ∃ n ≤ m.programWords, ∃ result env' m', HaltsAfter d env m n result env' m' ∧
      (code.length < UInt64.size →
        run d env m = { result := some result, machine := m', env := env' } ∧
          m'.steps.toNat = n) := by
  obtain ⟨n, hn, result, env', m', hhalts⟩ := exists_haltsAfter_of_forward hl hforward env hm hpc
  rw [hm.programWords]
  refine ⟨n, hn, result, env', m', hhalts, fun hfits => ?_⟩
  have hroom : n < UInt64.size := by
    unfold sectionWords at hn
    have hdiv := Nat.div_le_self code.length Word.size
    omega
  have hallow : m.allowance = UInt64.size := by
    rw [allowance, hbudget]
  have hzero : m.steps.toNat = 0 := congrArg UInt64.toNat hsteps
  refine ⟨hhalts.run (by omega), ?_⟩
  rw [hhalts.toNat_steps (by omega)]
  omega

/-- Both edges of the program lead forward. Its run takes three steps, one for each word. -/
theorem forward_programs_halt_jump :
    (FlowGraph.analyze {} .little jumpOverMove 3).Forward ∧ atJump.programWords = 3 ∧
      (∃ n ≤ 3, ∃ result, (run {} ({} : Env Unit) atJump).result = some result ∧
        (run {} ({} : Env Unit) atJump).machine.steps.toNat = n) ∧
      (run {} ({} : Env Unit) atJump).machine.steps = 3 := by
  have hforward : (FlowGraph.analyze {} .little jumpOverMove 3).Forward := by decide
  have hexit : ExitsAt {} ({} : Env Unit) atJump 3 1 _ _ :=
    .mk (.cons rfl (.cons rfl (.refl _ _))) rfl
  obtain ⟨n, hn, result, env', m', -, hrun⟩ := forward_programs_halt {} .little jumpOverMove 3
    (by decide) hforward ({} : Env Unit) atJump (holds_load _ _) rfl rfl rfl
  obtain ⟨hrun, hsteps⟩ := hrun (by decide)
  refine ⟨hforward, rfl, ⟨n, hn, result, ?_, ?_⟩, ?_⟩
  · rw [hrun]
  · rw [hrun]
    exact hsteps
  · rw [hexit.run (by decide)]
    rfl

end Machine

end Ebpf

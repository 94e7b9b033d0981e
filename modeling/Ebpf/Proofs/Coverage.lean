/-
  The flow graph of a section, compared with its executions. A step of a machine
  goes on to one of the words that the walk goes on to, or leaves the section
  (`StepEffect.pc_mem_successors`). So if the walk is complete, an execution from
  the first word never decodes an instruction that was not visited
  (`Steps.mem_visits`).

  `analysis_covers_runs` draws the conclusions: what is executed is listed in a
  block, exits are among the exits and jumps out of the program among the strays.
-/
import Ebpf.Proofs.Blocks
import Ebpf.Proofs.StepFaults
import Ebpf.Proofs.Steps

namespace Ebpf

variable {σ : Type}

/-! ## Where instructions lead -/

namespace Machine

variable {env : Env σ} {m : Machine} {i : Insn}

/-- Only a conditional jump may fall through as well as jump. -/
theorem ne_ja_of_exec_next (h : (exec env m i).result = .ok .next) : i.op ≠ .ja := by
  intro hop
  simp only [exec, hop] at h
  cases h

end Machine

namespace Visit

variable {len : Nat} {v : Visit}

/-- A jump may be followed by its target. -/
theorem target_mem_successors {m : Machine} {t : Nat} (hj : v.slot.insn.Jumps m)
    (ht : v.target? len = some t) : t ∈ v.successors len := by
  unfold Insn.Jumps at hj
  cases hop : v.slot.insn.op with
  | ja => simp only [successors, hop, ht, Option.toList_some, List.mem_singleton]
  | jmp =>
    simp only [successors, hop, ht, Option.toList_some]
    exact List.mem_append_left _ (List.mem_singleton_self t)
  | _ =>
    rw [hop] at hj
    exact hj.elim

/-- What falls through may be followed by the next word, if there is one. -/
theorem next_mem_successors (hja : v.slot.insn.op ≠ .ja) (hexit : v.slot.insn.op ≠ .exit)
    (hnext : v.next < len) : v.next ∈ v.successors len := by
  unfold successors
  split
  · next hop => exact absurd hop hja
  · rw [if_pos hnext]
    exact List.mem_append_right _ (List.mem_singleton_self _)
  · next hop => exact absurd hop hexit
  · exact List.mem_singleton_self _

/-- A jump without a target in the section is a stray. -/
theorem isStray_of_jumps {m : Machine} (hj : v.slot.insn.Jumps m) (ht : v.target? len = none) :
    v.isStray len = true := by
  unfold Insn.Jumps at hj
  cases hop : v.slot.insn.op with
  | ja => simp only [isStray, hop, ht, Option.isNone_none]
  | jmp => simp only [isStray, hop, ht, Option.isNone_none, Bool.true_or]
  | _ =>
    rw [hop] at hj
    exact hj.elim

end Visit

/-! ## One step -/

namespace Machine

variable {d : Decoder} {env env' : Env σ} {m m' : Machine} {slot : Slot}

/-- The jump of the machine and the jump of the walk are the same. -/
theorem target?_eq (m : Machine) (slot : Slot) :
    Visit.target? m.programWords ⟨m.pc, slot⟩ =
      if m.InProgram (m.target slot.insn.off) then some (m.target slot.insn.off).toNat else none :=
  rfl

/-- A step that does not trap has decoded an instruction. -/
theorem StepEffect.exists_fetch {o : Outcome σ (Except Trap Status)} (h : StepEffect d env m o)
    {status : Status} (hr : o.result = .ok status) : ∃ slot, m.fetch d m.pc = .ok slot := by
  cases h with
  | halted | undecoded | refused | stray => cases hr
  | next hm hd | branch hm hd | exit hm hd => exact ⟨_, hd⟩

/-- A step goes on to a word that the walk goes on to, or leaves the program. -/
theorem StepEffect.pc_mem_successors {o : Outcome σ (Except Trap Status)}
    (h : StepEffect d env m o) (hr : o.result = .ok .running) (hd : m.fetch d m.pc = .ok slot) :
    o.machine.pc ∈ Visit.successors m.programWords ⟨m.pc, slot⟩ ∨
      m.programWords ≤ o.machine.pc := by
  cases h with
  | halted | undecoded | refused | stray | exit => cases hr
  | next hm hd' he =>
    rw [hd] at hd'
    cases hd'
    by_cases hnext : m.pc + slot.words < m.programWords
    · have hexit : slot.insn.op ≠ .exit := by
        intro hop
        rw [execAt, exec_eq_exit_iff.mpr hop] at he
        cases he
      exact .inl (Visit.next_mem_successors (v := ⟨m.pc, slot⟩) (ne_ja_of_exec_next he) hexit hnext)
    · exact .inr (Nat.not_lt.mp hnext)
  | branch hm hd' he ht =>
    rw [hd] at hd'
    cases hd'
    obtain ⟨hj, rfl⟩ := exec_eq_branch_iff.mp he
    refine .inl (Visit.target_mem_successors (v := ⟨m.pc, slot⟩) hj ?_)
    rw [target?_eq, if_pos ht]

theorem StepEffect.op_of_exit {o : Outcome σ (Except Trap Status)} (h : StepEffect d env m o)
    {r0 : UInt64} (hr : o.result = .ok (.exited r0)) :
    ∃ slot, m.fetch d m.pc = .ok slot ∧ slot.insn.op = .exit ∧ o.machine.pc = m.pc := by
  cases h with
  | halted | undecoded | refused | stray | next | branch => cases hr
  | @exit slot hm hd he => exact ⟨slot, hd, exec_eq_exit_iff.mp he, rfl⟩

theorem StepEffect.stray_of_trap {o : Outcome σ (Except Trap Status)} (h : StepEffect d env m o)
    {t : Trap} {target : Int} {len : Nat} (hr : o.result = .error t)
    (hf : t.fault = .jumpOutOfRange target len) :
    ∃ slot, m.fetch d m.pc = .ok slot ∧ Visit.isStray m.programWords ⟨m.pc, slot⟩ = true ∧
      t.pc = m.pc := by
  cases h with
  | halted =>
    cases hr
    cases hf
  | undecoded hm hd =>
    cases hr
    dsimp only at hf
    rw [fetch_eq_decode] at hd
    cases hf ▸ (decode_effect _ _ _).ofDecoding hd
  | refused hm hd he =>
    cases hr
    dsimp only at hf
    rw [execAt, exec_eq_error_iff, hf] at he
    cases he
  | @stray slot off hm hd he ht =>
    cases hr
    obtain ⟨hj, rfl⟩ := exec_eq_branch_iff.mp he
    refine ⟨slot, hd, Visit.isStray_of_jumps (v := ⟨m.pc, slot⟩) hj ?_, rfl⟩
    rw [target?_eq, if_neg ht]
  | next | branch | exit => cases hr

/-! ## Executions -/

variable {o : ByteOrder} {code : List UInt8} {vs : List Visit} {n : Nat}

theorem Holds.programWords (hm : m.Holds o code) : m.programWords = sectionWords code := by
  rw [Machine.programWords, sectionWords, ← hm.program, Array.length_toList]

/-- A machine that stands at a word of which the walk knows: it is due, or outside the section. -/
def Tracked (m : Machine) (len : Nat) (vs : List Visit) : Prop :=
  Due len vs m.pc ∨ len ≤ m.pc

/-- What a tracked machine decodes was visited. -/
theorem Tracked.mem_visits (h : m.Tracked (sectionWords code) vs)
    (hw : Walked d o code (sectionWords code) [] vs) (hm : m.Holds o code)
    (hd : m.fetch d m.pc = .ok slot) : ⟨m.pc, slot⟩ ∈ vs := by
  have hin := words_le_of_fetch hd
  have hpos := slot.words_pos
  rw [hm.programWords] at hin
  rw [hm.fetch d m.pc] at hd
  rcases h with hdue | hout
  · have hlt : m.pc < sectionWords code := by omega
    exact hw.mem_of_due (v := ⟨m.pc, slot⟩) hdue hd hlt
  · omega

theorem Tracked.step (h : m.Tracked (sectionWords code) vs)
    (hw : Walked d o code (sectionWords code) [] vs) (hm : m.Holds o code)
    (hr : (step d env m).result = .ok .running) :
    (step d env m).machine.Tracked (sectionWords code) vs := by
  have heff := step_effect d env m
  obtain ⟨slot, hd⟩ := heff.exists_fetch hr
  have hv := h.mem_visits hw hm hd
  have hpc := heff.pc_mem_successors hr hd
  rw [hm.programWords] at hpc
  exact hpc.imp (fun hmem => .inr ⟨_, hv, hmem⟩) id

theorem Steps.tracked (h : Steps d n env m env' m')
    (hw : Walked d o code (sectionWords code) [] vs) (hm : m.Holds o code)
    (ht : m.Tracked (sectionWords code) vs) : m'.Tracked (sectionWords code) vs := by
  induction h with
  | refl => exact ht
  | @cons n env env' m m' hr _ ih => exact ih (hm.of_code (code_step d env m)) (ht.step hw hm hr)

/-- What an execution from the first word decodes was visited. -/
theorem Steps.mem_visits {limit : Nat} (h : Steps d n env m env' m')
    (hl : sectionWords code ≤ limit) (hm : m.Holds o code) (hpc : m.pc = 0)
    (hd : m'.fetch d m'.pc = .ok slot) : ⟨m'.pc, slot⟩ ∈ visits d o code limit := by
  have hw := walked_visits d o hl
  exact (h.tracked hw hm (.inl (.inl hpc))).mem_visits hw (hm.of_code h.code) hd

end Machine

/-! ## Blocks, exits and strays -/

/-- Every visit is listed in a block, between its ends. -/
theorem exists_block (d : Decoder) (o : ByteOrder) (code : List UInt8) (limit : Nat) {v : Visit}
    (hv : v ∈ visits d o code limit) :
    ∃ b ∈ (FlowGraph.analyze d o code limit).blocks,
      b.start ≤ v.pc ∧ v.pc < b.stop ∧ v.text ∈ b.insns := by
  obtain ⟨rest, hw⟩ := exists_walked_visits d o code limit
  obtain ⟨u, hu, hleader, hv'⟩ := FlowGraph.exists_mem_insnsFrom hw hv
  have hblock := FlowGraph.isBlock_insnsFrom (sectionWords code) (visits d o code limit) u
  obtain ⟨last, hlast, hbefore⟩ := hblock.exists_last
  refine ⟨_, FlowGraph.mem_blocks_iff.mpr ⟨u, hu, hleader, rfl⟩, hblock.le_pc hv', ?_, ?_⟩
  · rw [Block.ofChain, hlast]
    exact hbefore v hv'
  · exact List.mem_map_of_mem hv'

namespace Machine

variable {d : Decoder} {o : ByteOrder} {code : List UInt8} {limit n : Nat} {env env' : Env σ}
  {m m' : Machine}

theorem ExitsAt.mem_exits {r0 : UInt64} (h : ExitsAt d env m n r0 env' m')
    (hl : sectionWords code ≤ limit) (hm : m.Holds o code) (hpc : m.pc = 0) :
    m'.pc ∈ (FlowGraph.analyze d o code limit).exits := by
  cases h with
  | @mk n env₁ m₁ r0 h hr =>
    obtain ⟨slot, hd, hop, hstay⟩ := (step_effect d env₁ m₁).op_of_exit hr
    rw [hstay]
    refine FlowGraph.mem_exits_iff.mpr ⟨_, h.mem_visits hl hm hpc hd, ?_, rfl⟩
    simp only [Visit.isExit, hop]

theorem TrapsAfter.mem_strays {t : Trap} {target : Int} {len : Nat}
    (h : TrapsAfter d env m n t env' m') (hf : t.fault = .jumpOutOfRange target len)
    (hl : sectionWords code ≤ limit) (hm : m.Holds o code) (hpc : m.pc = 0) :
    t.pc ∈ (FlowGraph.analyze d o code limit).strays := by
  cases h with
  | @mk env₁ m₁ t h hr =>
    obtain ⟨slot, hd, hstray, hstay⟩ := (step_effect d env₁ m₁).stray_of_trap hr hf
    rw [(hm.of_code h.code).programWords] at hstray
    exact FlowGraph.mem_strays_iff.mpr ⟨_, h.mem_visits hl hm hpc hd, hstray, hstay.symm⟩

/-! ## Main statement -/

/-- The flow graph of a section covers its executions, if its limit is not below the number of
words. For every machine that holds the section and starts at its first word, whatever its
registers, stack and surroundings: each instruction that is decoded on the way is listed in a block;
the program exits only at an exit of the graph and jumps out of range only at a stray. So without
exits no run returns, and without strays no run traps for a jump out of range. -/
theorem analysis_covers_runs (d : Decoder) (o : ByteOrder) (code : List UInt8) (limit : Nat)
    (hl : sectionWords code ≤ limit) (env : Env σ) (m : Machine) (hm : m.Holds o code)
    (hpc : m.pc = 0) :
    (∀ n env' m' slot, Steps d n env m env' m' → m'.fetch d m'.pc = .ok slot →
      ∃ b ∈ (FlowGraph.analyze d o code limit).blocks,
        b.start ≤ m'.pc ∧ m'.pc < b.stop ∧ (TraceLine.insn m'.pc slot.insn).text ∈ b.insns) ∧
    (∀ n r0 env' m', ExitsAt d env m n r0 env' m' →
      m'.pc ∈ (FlowGraph.analyze d o code limit).exits) ∧
    (∀ n t env' m', TrapsAfter d env m n t env' m' →
      ∀ target len, t.fault = .jumpOutOfRange target len →
        t.pc ∈ (FlowGraph.analyze d o code limit).strays) ∧
    ((FlowGraph.analyze d o code limit).exits = [] →
      ∀ r0, (run d env m).result ≠ some (.ok r0)) ∧
    ((FlowGraph.analyze d o code limit).strays = [] →
      ∀ t, (run d env m).result = some (.error t) →
        ∀ target len, t.fault ≠ .jumpOutOfRange target len) := by
  refine ⟨?_, ?_, ?_, ?_, ?_⟩
  · intro n env' m' slot h hd
    exact exists_block d o code limit (h.mem_visits hl hm hpc hd)
  · intro n r0 env' m' h
    exact h.mem_exits hl hm hpc
  · intro n t env' m' h target len hf
    exact h.mem_strays hf hl hm hpc
  · intro hnone r0 hr
    obtain ⟨n, env', m', hexit⟩ := exists_exitsAt_of_run hr
    have hmem := hexit.mem_exits hl hm hpc
    rw [hnone] at hmem
    cases hmem
  · intro hnone t hr target len hf
    rcases exists_trapsAfter_of_run hr with ⟨n, env', m', htrap⟩ | ⟨spent, hspent⟩
    · have hmem := htrap.mem_strays hf hl hm hpc
      rw [hnone] at hmem
      cases hmem
    · rw [hf] at hspent
      cases hspent

/-- `jne r1, 0, +1` over `mov r0, 1`, and `exit`. -/
def jumpOverMove : List UInt8 :=
  [0x55, 1, 1, 0, 0, 0, 0, 0, 0xb7, 0, 0, 0, 1, 0, 0, 0, 0x95, 0, 0, 0, 0, 0, 0, 0]

/-- A machine with the program in little endian order, at its first word. -/
def atJump : Machine :=
  (Machine.new { stackSize := 8 }).load jumpOverMove

/-- The jump is not taken: the run executes all three words, and what the graph says of the last two
agrees with it. -/
theorem analysis_covers_runs_jump :
    sectionWords jumpOverMove ≤ 3 ∧ (run {} ({} : Env Unit) atJump).result = some (.ok 1) ∧
      (∃ b ∈ (FlowGraph.analyze {} .little jumpOverMove 3).blocks,
        b.start ≤ 1 ∧ 1 < b.stop ∧ "0001: mov r0, 1" ∈ b.insns) ∧
      2 ∈ (FlowGraph.analyze {} .little jumpOverMove 3).exits := by
  have hsteps : Steps {} 1 ({} : Env Unit) atJump _ _ := .cons rfl (.refl _ _)
  have hexit : ExitsAt {} ({} : Env Unit) atJump 3 1 _ _ :=
    .mk (.cons rfl (.cons rfl (.refl _ _))) rfl
  obtain ⟨hlisted, hexits, -⟩ := analysis_covers_runs {} .little jumpOverMove 3 (by decide)
    ({} : Env Unit) atJump (holds_load _ _) rfl
  have hmove : (step {} ({} : Env Unit) atJump).machine.fetch {} 1 =
      .ok { insn := { op := .alu .mov .w64 .imm, opcode := 0xb7, dst := 0, src := 0, off := 0,
                      imm := 1 }
            wide := false } := rfl
  refine ⟨by decide, ?_, ?_, ?_⟩
  · rw [hexit.run (by decide)]
  · exact hlisted 1 _ _ _ hsteps hmove
  · exact hexits 3 1 _ _ hexit

end Machine

end Ebpf

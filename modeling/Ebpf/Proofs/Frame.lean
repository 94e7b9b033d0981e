/-
  What a step may change when it succeeds. At most one register changes, and
  never the frame register; of the stack, the bytes of one cell, or what a
  helper does to it that is given `r1` to `r5`; then the program counter, the
  count of steps and, on an exit, the run state.

  `step_frame` says this of every instruction on every running machine. It is
  about where a step writes, not about the values: those are the business of
  the operations themselves.
-/
import Ebpf.Proofs.StepFaults
import Ebpf.Proofs.Steps

namespace Ebpf

variable {σ : Type}

/-! ## What an instruction may touch -/

/-- The register that an instruction writes, if it writes one. -/
def Insn.written? (i : Insn) : Option Reg :=
  match i.op with
  | .alu .. | .swap .. | .loadImm64 | .load _ => some i.dst
  | .loadPacket .. | .call => some Reg.result
  | .store .. | .atomicAdd _ | .ja | .jmp .. | .exit => none

/-- The stack index that the destination register and the offset name, modulo `2 ^ 64`. -/
def Insn.cell (m : Machine) (i : Insn) : Nat :=
  (((m.regs.get i.dst).toNat + i.off.toInt) % (UInt64.size : Int)).toNat

/-- A stack that was written to in the `len` bytes from `start` on, and nowhere else. -/
structure Stack.WrittenIn (s : Stack) (start len : Nat) (t : Stack) : Prop where
  fits : start + len ≤ s.size
  size_eq : t.size = s.size
  outside : ∀ j, j < start ∨ start + len ≤ j → t.bytes[j]? = s.bytes[j]?

/-- The stack that the helper of a number leaves behind when it is given `r1` to `r5`, in this
order, and the machine's stack. -/
inductive Machine.HelperLeaves (helpers : Option (HelperTable σ)) (m : Machine) (id : UInt32) :
    Stack → Prop
  | mk {table : HelperTable σ} {h : Helper σ} (ht : helpers = some table)
      (hh : table.find? id = some h) :
      HelperLeaves helpers m id
        (h.act h.state #v[m.regs.get 1, m.regs.get 2, m.regs.get 3, m.regs.get 4, m.regs.get 5]
          m.stack).stack

/-- The stacks that an instruction may leave behind: that of the machine, with one cell written to
by a store or an addition, or the one that a helper made of it. -/
def Insn.MayLeave (helpers : Option (HelperTable σ)) (m : Machine) (i : Insn) (t : Stack) : Prop :=
  match i.op with
  | .store size _ | .atomicAdd size => m.stack.WrittenIn (i.cell m) size.bytes t
  | .call => m.HelperLeaves helpers i.helperId t
  | _ => t = m.stack

namespace Machine

/-! ## Registers -/

theorem regs_writeRegister_of_ne (m : Machine) {r q : Reg} (v : UInt64) (h : q ≠ r) :
    (m.writeRegister r v).machine.regs.get q = m.regs.get q := by
  unfold writeRegister
  split
  · rfl
  · exact Registers.get_put_of_ne _ _ h

theorem regs_storeCell (m : Machine) (addr : Int64) (size : Size) (v : UInt64) :
    (m.storeCell addr size v).machine.regs = m.regs := by
  unfold storeCell
  split <;> rfl

theorem regs_execLoad_of_ne (m : Machine) (i : Insn) (size : Size) {q : Reg} (h : q ≠ i.dst) :
    (m.execLoad i size).machine.regs.get q = m.regs.get q := by
  unfold execLoad
  split
  · rfl
  · exact regs_writeRegister_of_ne m _ h

theorem regs_execAtomicAdd (m : Machine) (i : Insn) (size : Size) :
    (m.execAtomicAdd i size).machine.regs = m.regs := by
  unfold execAtomicAdd
  split
  · rfl
  · exact regs_storeCell m _ _ _

theorem regs_execLoadPacket_of_ne (m : Machine) (packet : Option Packet) (i : Insn) (size : Size)
    (indirect : Bool) {q : Reg} (h : q ≠ Reg.result) :
    (m.execLoadPacket packet i size indirect).machine.regs.get q = m.regs.get q := by
  unfold execLoadPacket
  split
  · rfl
  · dsimp only
    split
    · split
      · rfl
      · exact regs_writeRegister_of_ne m _ h
    · rfl

theorem regs_execCall_of_ne (env : Env σ) (m : Machine) (i : Insn) {q : Reg}
    (h : q ≠ Reg.result) : (execCall env m i).machine.regs.get q = m.regs.get q := by
  unfold execCall
  dsimp only
  split
  · rfl
  · split
    · rfl
    · rw [machine_settle]
      exact regs_writeRegister_of_ne _ _ h

/-- No register changes but the one that the instruction writes. -/
theorem regs_exec_of_ne (env : Env σ) (m : Machine) (i : Insn) {q : Reg}
    (h : i.written? ≠ some q) : (exec env m i).machine.regs.get q = m.regs.get q := by
  have hne {r : Reg} (hw : i.written? = some r) : q ≠ r := by
    rintro rfl
    exact h hw
  unfold exec
  cases hop : i.op with
  | alu op width source | swap target width | loadImm64 =>
    have hw : i.written? = some i.dst := by simp only [Insn.written?, hop]
    rw [machine_settle]
    exact regs_writeRegister_of_ne m _ (hne hw)
  | loadPacket size indirect =>
    have hw : i.written? = some Reg.result := by simp only [Insn.written?, hop]
    rw [machine_settle]
    exact regs_execLoadPacket_of_ne m _ i size indirect (hne hw)
  | load size =>
    have hw : i.written? = some i.dst := by simp only [Insn.written?, hop]
    rw [machine_settle]
    exact regs_execLoad_of_ne m i size (hne hw)
  | store size source => rw [machine_settle, regs_storeCell]
  | atomicAdd size => rw [machine_settle, regs_execAtomicAdd]
  | call =>
    have hw : i.written? = some Reg.result := by simp only [Insn.written?, hop]
    exact regs_execCall_of_ne env m i (hne hw)
  | ja | jmp cond width source | exit => rfl

/-! ## The stack -/

/-- An address inside the stack is the index of the cell it names. -/
theorem toNat_address {m : Machine} {i : Insn} (h : 0 ≤ (m.address i.dst i.off).toInt) :
    (m.address i.dst i.off).toInt.toNat = i.cell m := by
  rw [address_eq_effective, effective, Int64.toInt_ofInt, Int.bmod_def] at h ⊢
  have hsize : Int64.size = UInt64.size := rfl
  rw [hsize] at h ⊢
  unfold Insn.cell
  split at h
  · next hlow => rw [if_pos hlow]
  · have hlt := Int.emod_lt_of_pos ((m.regs.get i.dst).toNat + i.off.toInt)
      (show (0 : Int) < UInt64.size by decide)
    omega

theorem writtenIn_storeCell {m : Machine} {i : Insn} {size : Size} {v : UInt64}
    (h : (m.storeCell (m.address i.dst i.off) size v).fault? = none) :
    m.stack.WrittenIn (i.cell m) size.bytes
      (m.storeCell (m.address i.dst i.off) size v).machine.stack := by
  unfold storeCell at h ⊢
  split at h
  · next hb =>
    have hcell := toNat_address hb.1
    have hfit : i.cell m + size.bytes ≤ m.stack.size := by
      have hlow := hb.1
      have htop := hb.2
      omega
    have hfit' : i.cell m + (m.config.order.write v size.bytes).length ≤ m.stack.bytes.size := by
      rw [ByteOrder.length_write]
      exact hfit
    rw [if_pos hb, hcell]
    refine ⟨hfit, Stack.size_overwrite _ _ _, ?_⟩
    intro j hj
    show (Stack.overwrite m.stack.bytes (i.cell m) (m.config.order.write v size.bytes))[j]? = _
    rw [Stack.getElem?_overwrite _ _ _ hfit', ByteOrder.length_write, if_neg (by omega)]
  · cases h

theorem stack_writeRegister (m : Machine) (r : Reg) (v : UInt64) :
    (m.writeRegister r v).machine.stack = m.stack := by
  unfold writeRegister
  split <;> rfl

theorem stack_execLoad (m : Machine) (i : Insn) (size : Size) :
    (m.execLoad i size).machine.stack = m.stack := by
  unfold execLoad
  split
  · rfl
  · exact stack_writeRegister m _ _

theorem stack_execLoadPacket (m : Machine) (packet : Option Packet) (i : Insn) (size : Size)
    (indirect : Bool) : (m.execLoadPacket packet i size indirect).machine.stack = m.stack := by
  unfold execLoadPacket
  split
  · rfl
  · dsimp only
    split
    · split
      · rfl
      · exact stack_writeRegister m _ _
    · rfl

theorem writtenIn_execAtomicAdd {m : Machine} {i : Insn} {size : Size}
    (h : (m.execAtomicAdd i size).fault? = none) :
    m.stack.WrittenIn (i.cell m) size.bytes (m.execAtomicAdd i size).machine.stack := by
  unfold execAtomicAdd at h ⊢
  split at h
  · cases h
  · exact writtenIn_storeCell h

/-- A call that returns has reached a helper, and leaves the stack that the helper left. -/
theorem helperLeaves_execCall {env : Env σ} {m : Machine} {i : Insn} {flow : Flow}
    (h : (execCall env m i).result = .ok flow) :
    m.HelperLeaves env.helpers i.helperId (execCall env m i).machine.stack := by
  unfold execCall at h ⊢
  dsimp only at h ⊢
  split at h
  · cases h
  · next table ht =>
    split at h
    · cases h
    · next v hr =>
      unfold HelperTable.call at hr
      split at hr
      · cases hr
      · next g hg =>
        have hfound : table.find? i.helperId = some g := hg
        have hcall : (table.call i.helperId m.regs.args m.stack).stack =
            (g.act g.state m.regs.args m.stack).stack := by
          unfold HelperTable.call
          rw [hfound]
        rw [machine_settle, stack_writeRegister]
        show m.HelperLeaves _ _ (table.call i.helperId m.regs.args m.stack).stack
        rw [hcall]
        exact .mk ht hfound

theorem mayLeave_exec {env : Env σ} {m : Machine} {i : Insn} {flow : Flow}
    (h : (exec env m i).result = .ok flow) :
    i.MayLeave env.helpers m (exec env m i).machine.stack := by
  unfold exec at h ⊢
  unfold Insn.MayLeave
  cases hop : i.op with
  | alu op width source | swap target width | loadImm64 =>
    simp only [machine_settle]
    exact stack_writeRegister m _ _
  | loadPacket size indirect =>
    simp only [machine_settle]
    exact stack_execLoadPacket m _ i size indirect
  | load size =>
    simp only [machine_settle]
    exact stack_execLoad m i size
  | store size source =>
    simp only [hop, result_settle_eq_ok_iff] at h
    simp only [machine_settle]
    exact writtenIn_storeCell h.1
  | atomicAdd size =>
    simp only [hop, result_settle_eq_ok_iff] at h
    simp only [machine_settle]
    exact writtenIn_execAtomicAdd h.1
  | call =>
    simp only [hop] at h
    exact helperLeaves_execCall h
  | ja | jmp cond width source | exit => rfl

/-! ## Steps -/

/-- What a step that succeeds leaves: `slot` is the instruction executed, `status` what the step
returned and `m'` the machine after it. -/
structure StepFrame (env : Env σ) (m : Machine) (slot : Slot) (status : Status) (m' : Machine) :
    Prop where
  config : m'.config = m.config
  program : m'.program = m.program
  steps : m'.steps.toNat = m.steps.toNat + 1
  /-- All registers but the one that the instruction writes are as before. -/
  registers : ∀ r, slot.insn.written? ≠ some r → m'.regs.get r = m.regs.get r
  /-- No instruction writes the frame register. -/
  frame : m'.regs.get 10 = m.regs.get 10
  stack : slot.insn.MayLeave env.helpers m m'.stack
  /-- Only a helper could change the size of the stack. -/
  size_stack : (slot.insn.op = .call → env.EveryReply Helper.KeepsStackSize) →
    m'.stack.size = m.stack.size
  jump : slot.insn.Jumps m → (m'.pc : Int) = m.pc + 1 + slot.insn.off.toInt
  next : ¬ slot.insn.Jumps m → slot.insn.op ≠ .exit →
    m'.pc = m.pc + if slot.wide then 2 else 1
  exit : slot.insn.op = .exit →
    m'.pc = m.pc ∧ m'.state = .exited ∧ status = .exited (m.regs.get 0)
  running : slot.insn.op ≠ .exit → m'.state = .running ∧ status = .running

/-- A stack that an instruction leaves has the size it had, if the helper keeps it. -/
theorem size_of_mayLeave {helpers : Option (HelperTable σ)} {m : Machine} {i : Insn} {t : Stack}
    (h : i.MayLeave helpers m t)
    (hcall : i.op = .call → ∀ table, helpers = some table →
      table.EveryReply Helper.KeepsStackSize) : t.size = m.stack.size := by
  unfold Insn.MayLeave at h
  split at h
  · exact h.size_eq
  · exact h.size_eq
  · next hop =>
    obtain ⟨ht, hg⟩ := h
    exact hcall hop _ ht _ _ hg _ _ _
  · rw [h]

/-- The flow of an instruction tells whether it jumped, exited or did neither. -/
theorem flow_iff {env : Env σ} {m : Machine} {i : Insn} {flow : Flow}
    (he : (execAt env m i).result = .ok flow) :
    (i.Jumps m ↔ flow = .branch i.off) ∧ (i.op = .exit ↔ flow = .exit) := by
  have hbranch := @exec_eq_branch_iff σ (env.announce m.pc i) m i i.off
  have hexit := @exec_eq_exit_iff σ (env.announce m.pc i) m i
  unfold execAt at he
  rw [he] at hbranch hexit
  refine ⟨?_, ?_⟩
  · simpa using hbranch.symm
  · simpa using hexit.symm

theorem StepEffect.stepFrame {d : Decoder} {env : Env σ} {m : Machine}
    {o : Outcome σ (Except Trap Status)} (heff : StepEffect d env m o) {status : Status}
    (hok : o.result = .ok status) (hcode : o.machine.code = m.code)
    (hsteps : o.machine.steps.toNat = m.steps.toNat + 1) :
    ∃ slot, m.fetch d m.pc = .ok slot ∧ StepFrame env m slot status o.machine := by
  have hframe := heff.frame
  have hexec {slot : Slot} {flow : Flow} (he : (execAt env m slot.insn).result = .ok flow) :
      slot.insn.MayLeave env.helpers m (execAt env m slot.insn).machine.stack := by
    rw [← Env.helpers_announce env m.pc slot.insn]
    exact mayLeave_exec he
  -- a jump and an exit leave the machine that the instruction was given
  have hstays {slot : Slot} {flow : Flow} (he : (execAt env m slot.insn).result = .ok flow)
      (hne : flow ≠ .next) : slot.insn.MayLeave env.helpers m m.stack := by
    have hleft := hexec he
    rwa [((execAt_effect env m slot.insn).eq_of_flow he hne).1] at hleft
  have hsize {slot : Slot} {t : Stack} (hleft : slot.insn.MayLeave env.helpers m t)
      (hcall : slot.insn.op = .call → env.EveryReply Helper.KeepsStackSize) :
      t.size = m.stack.size := size_of_mayLeave hleft hcall
  have hprogram : o.machine.program = m.program := congrArg Prod.fst hcode
  have hconfig : o.machine.config = m.config := congrArg Prod.snd hcode
  cases heff with
  | halted | undecoded | refused | stray => cases hok
  | @next slot hm hd he =>
    cases hok
    obtain ⟨hjumps, hexit⟩ := flow_iff he
    have hstate : (execAt env m slot.insn).machine.state = m.state := by
      rw [(execAt_effect env m slot.insn).confined]
    exact ⟨slot, hd,
      { config := hconfig
        program := hprogram
        steps := hsteps
        registers := fun r hr => regs_exec_of_ne _ m _ hr
        frame := hframe
        stack := hexec he
        size_stack := hsize (hexec he)
        jump := fun hj => by cases hjumps.mp hj
        next := fun _ _ => rfl
        exit := fun hx => by cases hexit.mp hx
        running := fun _ => ⟨hstate.trans hm, rfl⟩ }⟩
  | @branch slot off hm hd he ht =>
    cases hok
    obtain ⟨hjumps, hexit⟩ := flow_iff he
    obtain ⟨hj, rfl⟩ := exec_eq_branch_iff.mp he
    have hpc : (((m.target slot.insn.off).toNat : Nat) : Int) = m.pc + 1 + slot.insn.off.toInt :=
      Int.toNat_of_nonneg ht.1
    exact ⟨slot, hd,
      { config := hconfig
        program := hprogram
        steps := hsteps
        registers := fun r _ => rfl
        frame := hframe
        stack := hstays he (by simp)
        size_stack := hsize (hstays he (by simp))
        jump := fun _ => hpc
        next := fun hnot => absurd hj hnot
        exit := fun hx => by cases hexit.mp hx
        running := fun _ => ⟨hm, rfl⟩ }⟩
  | @exit slot hm hd he =>
    cases hok
    obtain ⟨hjumps, hexit⟩ := flow_iff he
    exact ⟨slot, hd,
      { config := hconfig
        program := hprogram
        steps := hsteps
        registers := fun r _ => rfl
        frame := hframe
        stack := hstays he (by simp)
        size_stack := hsize (hstays he (by simp))
        jump := fun hj => by cases hjumps.mp hj
        next := fun _ hx => absurd (hexit.mpr rfl) hx
        exit := fun _ => ⟨rfl, rfl, rfl⟩
        running := fun hx => absurd (hexit.mpr rfl) hx }⟩

/-- Only a machine that runs takes a step. -/
theorem StepEffect.running_of_ok {d : Decoder} {env : Env σ} {m : Machine}
    {o : Outcome σ (Except Trap Status)} (heff : StepEffect d env m o) {status : Status}
    (hok : o.result = .ok status) : m.state = .running := by
  cases heff with
  | halted | undecoded | refused | stray => cases hok
  | next hm | branch hm | exit hm => exact hm

/-! ## Main statement -/

/-- The frame of a step. Whenever a step succeeds, in whatever surroundings, the machine was running
and the bytes at its program counter are an instruction, and the step left all but what `StepFrame`
lists for that instruction as it was. -/
theorem step_frame (d : Decoder) (env : Env σ) (m : Machine) (status : Status)
    (hroom : m.steps.toNat < UInt64.size - 1) (hok : (step d env m).result = .ok status) :
    m.state = .running ∧
      ∃ slot, d.decode m.config.order (m.program.toList.drop (Word.size * m.pc)) = .ok slot ∧
        StepFrame env m slot status (step d env m).machine := by
  have hcount : m.steps.toNat + 1 < UInt64.size := by omega
  obtain ⟨slot, hd, hframe⟩ :=
    (step_effect d env m).stepFrame hok (code_step d env m) (toNat_steps_of_ok hok hcount)
  rw [fetch_eq_decode] at hd
  exact ⟨(step_effect d env m).running_of_ok hok, slot, hd, hframe⟩

/-- A store of four bytes at the largest address plus one, on a stack of eight bytes. -/
def storeWrapped : Machine :=
  let m := (Machine.new { stackSize := 8 }).load [0x63, 0xa0, 1, 0, 0, 0, 0, 0]
  { m with regs := m.regs.put Reg.result 0xffffffffffffffff }

/-- A helper that leaves its arguments on the stack, a byte each, and gives nothing else away. -/
def spill : Helper Unit where
  name := "spill"
  state := ()
  act _ args _ :=
    { result := .ok 0
      state := ()
      stack := ⟨(args.toList.map (·.toUInt8)).toArray⟩
      events := [] }

/-- A call of the helper of number one, with a different number in each register. -/
def callSpill : Machine :=
  { (Machine.new { stackSize := 5 }).load [0x85, 0, 0, 0, 1, 0, 0, 0] with
    regs := ⟨#v[9, 11, 22, 33, 44, 55, 66, 77, 88, 99, 5]⟩ }

/-- The address of the store wraps to the bottom of the stack, whose upper half stays as it was. The
call leaves `r1` to `r5` on the stack, since that is what the helper does with what it is given. -/
theorem step_frame_store_and_call :
    ((step {} ({} : Env Unit) storeWrapped).result = .ok .running ∧
      ∃ slot, Decoder.decode {} .little (storeWrapped.program.toList.drop 0) = .ok slot ∧
        slot.insn.op = .store .word .reg ∧ slot.insn.cell storeWrapped = 0 ∧
        StepFrame ({} : Env Unit) storeWrapped slot .running
          (step {} ({} : Env Unit) storeWrapped).machine) ∧
    let env : Env Unit := { helpers := some (HelperTable.empty.register 1 spill) }
    (step {} env callSpill).result = .ok .running ∧
      (step {} env callSpill).machine.stack.bytes = #[11, 22, 33, 44, 55] ∧
      ∃ slot, Decoder.decode {} .little (callSpill.program.toList.drop 0) = .ok slot ∧
        slot.insn.op = .call ∧
        StepFrame env callSpill slot .running (step {} env callSpill).machine := by
  constructor
  · have hok : (step {} ({} : Env Unit) storeWrapped).result = .ok .running := rfl
    obtain ⟨-, slot, hd, hframe⟩ :=
      step_frame {} ({} : Env Unit) storeWrapped .running (by decide) hok
    have hslot : Decoder.decode {} .little (storeWrapped.program.toList.drop 0) =
        .ok { insn := { op := .store .word .reg, opcode := 0x63, dst := 0, src := 10, off := 1,
                        imm := 0 }
              wide := false } := rfl
    cases hslot.symm.trans hd
    exact ⟨hok, _, hslot, rfl, rfl, hframe⟩
  · intro env
    have hok : (step {} env callSpill).result = .ok .running := rfl
    obtain ⟨-, slot, hd, hframe⟩ := step_frame {} env callSpill .running (by decide) hok
    have hslot : Decoder.decode {} .little (callSpill.program.toList.drop 0) =
        .ok { insn := { op := .call, opcode := 0x85, dst := 0, src := 0, off := 0, imm := 1 }
              wide := false } := rfl
    cases hslot.symm.trans hd
    -- the stack is read off the frame alone: which helper was called, and what it was given
    have hleft : callSpill.HelperLeaves env.helpers 1 (step {} env callSpill).machine.stack :=
      hframe.stack
    have hbytes : (step {} env callSpill).machine.stack.bytes = #[11, 22, 33, 44, 55] := by
      generalize (step {} env callSpill).machine.stack = left at hleft
      obtain ⟨ht, hh⟩ := hleft
      cases ht
      cases hh
      rfl
    exact ⟨hok, hbytes, _, hslot, rfl, hframe⟩

end Machine

end Ebpf

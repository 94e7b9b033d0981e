/-
  Which faults a step raises, and when. `Insn.Faults` and `Machine.StepFaults`
  list the causes one by one, each with its exact condition: addresses are
  integer sums wrapped once to 64 signed bits, and spans are compared with the
  size of the stack or of the packet in exact arithmetic. The lists also fix
  the order of the checks, since at most one entry applies to a machine.

  `step_traps_iff`: a running machine traps with a fault exactly if the fault
  is on the list. A packet held in memory never fails by itself.
-/
import Ebpf.Proofs.Decode
import Ebpf.Proofs.Step

namespace Ebpf

variable {σ : Type}

/-! ## The faults of an instruction -/

/-- A register plus an integer, wrapped to 64 signed bits. -/
def Machine.effective (m : Machine) (r : Reg) (off : Int) : Int64 :=
  Int64.ofInt ((m.regs.get r).toNat + off)

/-- Operations that put a value into the destination register without looking at memory. -/
def Op.Computes : Op → Prop
  | .alu .. | .swap .. | .loadImm64 => True
  | _ => False

/-- The address of a packet load. -/
def Insn.packetOffset (m : Machine) (i : Insn) (indirect : Bool) : Int64 :=
  if indirect then m.effective i.src i.imm.toInt else i.imm

/-- The number of the helper that a call names: the low half of the immediate. -/
def Insn.helperId (i : Insn) : UInt32 :=
  i.imm.toUInt64.toUInt32

/-- An instruction that sends the machine elsewhere: a jump without a condition, or one whose
condition holds. -/
def Insn.Jumps (m : Machine) (i : Insn) : Prop :=
  match i.op with
  | .ja => True
  | .jmp cond width source => cond.holds width (m.regs.get i.dst) (m.operand i source width) = true
  | _ => False

/-- The faults that an instruction raises on a machine, with the condition of each. -/
inductive Insn.Faults (helpers : Option (HelperTable σ)) (packet : Option Packet) (m : Machine)
    (i : Insn) : Fault → Prop
  | computeFrame (hop : i.op.Computes) (hdst : i.dst = Reg.frame) :
      Faults helpers packet m i .frameRegisterWrite
  | loadBounds {size : Size} (hop : i.op = .load size)
      (hb : ¬ InBounds (m.effective i.src i.off.toInt) size.bytes m.stack.size) :
      Faults helpers packet m i (.memoryBounds .stack (m.effective i.src i.off.toInt) size.bytes)
  | loadFrame {size : Size} (hop : i.op = .load size)
      (hb : InBounds (m.effective i.src i.off.toInt) size.bytes m.stack.size)
      (hdst : i.dst = Reg.frame) : Faults helpers packet m i .frameRegisterWrite
  | storeBounds {size : Size} {source : Source} (hop : i.op = .store size source)
      (hb : ¬ InBounds (m.effective i.dst i.off.toInt) size.bytes m.stack.size) :
      Faults helpers packet m i (.memoryBounds .stack (m.effective i.dst i.off.toInt) size.bytes)
  | atomicAddBounds {size : Size} (hop : i.op = .atomicAdd size)
      (hb : ¬ InBounds (m.effective i.dst i.off.toInt) size.bytes m.stack.size) :
      Faults helpers packet m i (.memoryBounds .stack (m.effective i.dst i.off.toInt) size.bytes)
  | noPacket {size : Size} {indirect : Bool} (hop : i.op = .loadPacket size indirect)
      (hp : packet = none) : Faults helpers packet m i .noPacket
  | packetBounds {size : Size} {indirect : Bool} {p : Packet}
      (hop : i.op = .loadPacket size indirect) (hp : packet = some p)
      (hb : ¬ InBounds (i.packetOffset m indirect) size.bytes p.length) :
      Faults helpers packet m i (.memoryBounds .packet (i.packetOffset m indirect) size.bytes)
  | packetRead {size : Size} {indirect : Bool} {p : Packet} {reason : String}
      (hop : i.op = .loadPacket size indirect) (hp : packet = some p)
      (hb : InBounds (i.packetOffset m indirect) size.bytes p.length)
      (hr : p.read (i.packetOffset m indirect).toUInt64 size.bytes = .error reason) :
      Faults helpers packet m i (.packet (i.packetOffset m indirect).toUInt64 reason)
  | unknownHelper (hop : i.op = .call)
      (hh : ∀ table, helpers = some table → table.find? i.helperId = none) :
      Faults helpers packet m i (.unknownHelper i.helperId)
  | helper {table : HelperTable σ} {h : Helper σ} {reason : String} (hop : i.op = .call)
      (ht : helpers = some table) (hh : table.find? i.helperId = some h)
      (hr : (h.act h.state
        #v[m.regs.get 1, m.regs.get 2, m.regs.get 3, m.regs.get 4, m.regs.get 5]
        m.stack).result = .error reason) :
      Faults helpers packet m i (.helper i.helperId reason)

/-- A read inside the bounds of a packet held in memory does not fail. -/
theorem Packet.read_ofBytes {bytes : List UInt8} {addr : Int64} {len : Nat}
    (hb : InBounds addr len bytes.length) :
    (ofBytes bytes).read addr.toUInt64 len = .ok ((bytes.drop addr.toUInt64.toNat).take len) := by
  have haddr : addr.toUInt64.toNat = addr.toInt.toNat :=
    Int64.toNat_toUInt64_of_le (Int64.le_iff_toInt_le.mpr hb.1)
  have hfit : addr.toUInt64.toNat + len ≤ bytes.length := by
    have hnonneg := hb.1
    have htop := hb.2
    omega
  exact if_pos hfit

namespace Machine

/-! ## Refused attempts -/

theorem address_eq_effective (m : Machine) (base : Reg) (off : Int16) :
    m.address base off = m.effective base off.toInt := by
  rw [address, effective, Int64.ofInt_add, Int64.ofInt_eq_ofNat, Int64.ofInt_int16ToInt,
    ← UInt64.toInt64_ofNat', UInt64.ofNat_toNat]

theorem packetAddress_eq_packetOffset (m : Machine) (i : Insn) (indirect : Bool) :
    m.packetAddress i indirect = i.packetOffset m indirect := by
  unfold packetAddress Insn.packetOffset effective
  split
  · rw [Int64.ofInt_add, Int64.ofInt_eq_ofNat, Int64.ofInt_toInt, ← UInt64.toInt64_ofNat',
      UInt64.ofNat_toNat]
  · rfl

theorem writeRegister_eq_some_iff {m : Machine} {r : Reg} {v : UInt64} {f : Fault} :
    (m.writeRegister r v).fault? = some f ↔ r = Reg.frame ∧ f = .frameRegisterWrite := by
  unfold writeRegister
  split
  · next hr => simp [hr, eq_comm]
  · next hr => simp [hr]

theorem storeCell_eq_some_iff {m : Machine} {addr : Int64} {size : Size} {v : UInt64} {f : Fault} :
    (m.storeCell addr size v).fault? = some f ↔
      ¬ InBounds addr size.bytes m.stack.size ∧ f = .memoryBounds .stack addr size.bytes := by
  unfold storeCell
  split
  · next hb => simp [hb]
  · next hb => simp [hb, eq_comm]

theorem loadCell_eq (m : Machine) (addr : Int64) (size : Size) :
    (InBounds addr size.bytes m.stack.size ∧ ∃ v, m.loadCell addr size = .ok v) ∨
    (¬ InBounds addr size.bytes m.stack.size ∧
      m.loadCell addr size = .error (.memoryBounds .stack addr size.bytes)) := by
  unfold loadCell Stack.load Stack.read
  split
  · next hb => exact .inl ⟨hb, _, rfl⟩
  · next hb => exact .inr ⟨hb, rfl⟩

/-- A load is refused for its address first, and only then for its register. -/
theorem execLoad_eq_some_iff {m : Machine} {i : Insn} {size : Size} {f : Fault} :
    (m.execLoad i size).fault? = some f ↔
      (¬ InBounds (m.address i.src i.off) size.bytes m.stack.size ∧
        f = .memoryBounds .stack (m.address i.src i.off) size.bytes) ∨
      (InBounds (m.address i.src i.off) size.bytes m.stack.size ∧
        i.dst = Reg.frame ∧ f = .frameRegisterWrite) := by
  unfold execLoad
  rcases loadCell_eq m (m.address i.src i.off) size with ⟨hb, v, hv⟩ | ⟨hb, hv⟩
  · simp only [hv, hb, writeRegister_eq_some_iff]
    simp
  · simp only [hv, hb]
    simp [eq_comm]

theorem execAtomicAdd_eq_some_iff {m : Machine} {i : Insn} {size : Size} {f : Fault} :
    (m.execAtomicAdd i size).fault? = some f ↔
      ¬ InBounds (m.address i.dst i.off) size.bytes m.stack.size ∧
        f = .memoryBounds .stack (m.address i.dst i.off) size.bytes := by
  unfold execAtomicAdd
  rcases loadCell_eq m (m.address i.dst i.off) size with ⟨hb, v, hv⟩ | ⟨hb, hv⟩
  · simp only [hv, storeCell_eq_some_iff]
  · simp only [hv, hb]
    simp [eq_comm]

theorem execLoadPacket_eq_some_iff {m : Machine} {packet : Option Packet} {i : Insn} {size : Size}
    {indirect : Bool} {f : Fault} :
    (m.execLoadPacket packet i size indirect).fault? = some f ↔
      (packet = none ∧ f = .noPacket) ∨
      ∃ p, packet = some p ∧
        ((¬ InBounds (m.packetAddress i indirect) size.bytes p.length ∧
            f = .memoryBounds .packet (m.packetAddress i indirect) size.bytes) ∨
          (InBounds (m.packetAddress i indirect) size.bytes p.length ∧
            ∃ reason, p.read (m.packetAddress i indirect).toUInt64 size.bytes = .error reason ∧
              f = .packet (m.packetAddress i indirect).toUInt64 reason)) := by
  unfold execLoadPacket
  cases packet with
  | none => simp [eq_comm]
  | some p =>
    by_cases hb : InBounds (m.packetAddress i indirect) size.bytes p.length
    · cases hr : p.read (m.packetAddress i indirect).toUInt64 size.bytes with
      | error reason => simp [hb, hr, eq_comm]
      | ok bytes =>
        simp only [hb, hr, if_true, writeRegister_eq_some_iff]
        simp [hb, hr, Reg.frame_ne_result.symm]
    · simp [hb, eq_comm]

theorem execCall_eq_error_iff {env : Env σ} {m : Machine} {i : Insn} {f : Fault} :
    (execCall env m i).result = .error f ↔
      (env.helpers = none ∧ f = .unknownHelper i.helperId) ∨
      ∃ table, env.helpers = some table ∧
        (table.call i.helperId m.regs.args m.stack).result = .error f := by
  unfold execCall Insn.helperId
  cases env.helpers with
  | none => simp [eq_comm]
  | some table =>
    cases hr : (table.call i.imm.toUInt64.toUInt32 m.regs.args m.stack).result with
    | error e => simp [hr]
    | ok v =>
      simp [hr, result_settle_eq_error_iff, writeRegister_eq_some_iff, Reg.frame_ne_result.symm]

/-! ## The faults of an instruction are those listed -/

theorem faults_of_exec {env : Env σ} {m : Machine} {i : Insn} {f : Fault}
    (h : (exec env m i).result = .error f) : i.Faults env.helpers env.packet m f := by
  unfold exec at h
  cases hop : i.op with
  | alu op width source | swap target width | loadImm64 =>
    simp only [hop, result_settle_eq_error_iff, writeRegister_eq_some_iff] at h
    obtain ⟨hdst, rfl⟩ := h
    exact .computeFrame (by rw [hop]; trivial) hdst
  | loadPacket size indirect =>
    simp only [hop, result_settle_eq_error_iff, execLoadPacket_eq_some_iff,
      packetAddress_eq_packetOffset] at h
    rcases h with ⟨hp, rfl⟩ | ⟨p, hp, ⟨hb, rfl⟩ | ⟨hb, reason, hr, rfl⟩⟩
    · exact .noPacket hop hp
    · exact .packetBounds hop hp hb
    · exact .packetRead hop hp hb hr
  | load size =>
    simp only [hop, result_settle_eq_error_iff, execLoad_eq_some_iff, address_eq_effective] at h
    rcases h with ⟨hb, rfl⟩ | ⟨hb, hdst, rfl⟩
    · exact .loadBounds hop hb
    · exact .loadFrame hop hb hdst
  | store size source =>
    simp only [hop, result_settle_eq_error_iff, storeCell_eq_some_iff, address_eq_effective] at h
    obtain ⟨hb, rfl⟩ := h
    exact .storeBounds hop hb
  | atomicAdd size =>
    simp only [hop, result_settle_eq_error_iff, execAtomicAdd_eq_some_iff,
      address_eq_effective] at h
    obtain ⟨hb, rfl⟩ := h
    exact .atomicAddBounds hop hb
  | call =>
    simp only [hop, execCall_eq_error_iff, HelperTable.call_eq_error_iff] at h
    rcases h with ⟨hn, rfl⟩ | ⟨table, ht, ⟨hn, rfl⟩ | ⟨g, reason, hg, hr, rfl⟩⟩
    · refine .unknownHelper hop fun table ht => ?_
      rw [hn] at ht
      cases ht
    · refine .unknownHelper hop fun table' ht' => ?_
      rw [ht] at ht'
      cases ht'
      exact hn
    · exact .helper hop ht hg hr
  | ja | jmp cond width source | exit =>
    simp only [hop] at h
    cases h

theorem exec_of_faults {env : Env σ} {m : Machine} {i : Insn} {f : Fault}
    (h : i.Faults env.helpers env.packet m f) : (exec env m i).result = .error f := by
  unfold exec
  cases h with
  | computeFrame hop hdst =>
    have hrefused (v : UInt64) :
        ((m.writeRegister i.dst v).settle env).result = .error .frameRegisterWrite :=
      result_settle_eq_error_iff.mpr (writeRegister_eq_some_iff.mpr ⟨hdst, rfl⟩)
    cases hcase : i.op with
    | alu op width source | swap target width | loadImm64 => exact hrefused _
    | _ =>
      rw [hcase] at hop
      exact hop.elim
  | loadBounds hop hb =>
    simp only [hop]
    rw [result_settle_eq_error_iff, execLoad_eq_some_iff, address_eq_effective]
    exact .inl ⟨hb, rfl⟩
  | loadFrame hop hb hdst =>
    simp only [hop]
    rw [result_settle_eq_error_iff, execLoad_eq_some_iff, address_eq_effective]
    exact .inr ⟨hb, hdst, rfl⟩
  | storeBounds hop hb =>
    simp only [hop]
    rw [result_settle_eq_error_iff, storeCell_eq_some_iff, address_eq_effective]
    exact ⟨hb, rfl⟩
  | atomicAddBounds hop hb =>
    simp only [hop]
    rw [result_settle_eq_error_iff, execAtomicAdd_eq_some_iff, address_eq_effective]
    exact ⟨hb, rfl⟩
  | noPacket hop hp =>
    simp only [hop]
    rw [result_settle_eq_error_iff, execLoadPacket_eq_some_iff]
    exact .inl ⟨hp, rfl⟩
  | packetBounds hop hp hb =>
    simp only [hop]
    rw [result_settle_eq_error_iff, execLoadPacket_eq_some_iff, packetAddress_eq_packetOffset]
    exact .inr ⟨_, hp, .inl ⟨hb, rfl⟩⟩
  | packetRead hop hp hb hr =>
    simp only [hop]
    rw [result_settle_eq_error_iff, execLoadPacket_eq_some_iff, packetAddress_eq_packetOffset]
    exact .inr ⟨_, hp, .inr ⟨hb, _, hr, rfl⟩⟩
  | unknownHelper hop hh =>
    simp only [hop]
    rw [execCall_eq_error_iff]
    cases ht : env.helpers with
    | none => exact .inl ⟨rfl, rfl⟩
    | some table =>
      have hcall : (table.call i.helperId m.regs.args m.stack).result = _ :=
        HelperTable.call_eq_error_iff.mpr (.inl ⟨hh table ht, rfl⟩)
      exact .inr ⟨table, rfl, hcall⟩
  | helper hop ht hh hr =>
    simp only [hop]
    rw [execCall_eq_error_iff]
    exact .inr ⟨_, ht, HelperTable.call_eq_error_iff.mpr (.inr ⟨_, _, hh, hr, rfl⟩)⟩

theorem exec_eq_error_iff {env : Env σ} {m : Machine} {i : Insn} {f : Fault} :
    (exec env m i).result = .error f ↔ i.Faults env.helpers env.packet m f :=
  ⟨faults_of_exec, exec_of_faults⟩

theorem execAt_eq_error_iff {env : Env σ} {m : Machine} {i : Insn} {f : Fault} :
    (execAt env m i).result = .error f ↔ i.Faults env.helpers env.packet m f := by
  rw [execAt, exec_eq_error_iff, Env.helpers_announce, Env.packet_announce]

theorem execCall_falls_through {env : Env σ} {m : Machine} {i : Insn} {flow : Flow}
    (h : (execCall env m i).result = .ok flow) : flow = .next := by
  unfold execCall at h
  dsimp only at h
  split at h
  · cases h
  · split at h
    · cases h
    · exact (result_settle_eq_ok_iff.mp h).2

theorem exec_eq_branch_iff {env : Env σ} {m : Machine} {i : Insn} {off : Int16} :
    (exec env m i).result = .ok (.branch off) ↔ i.Jumps m ∧ off = i.off := by
  unfold exec Insn.Jumps
  cases i.op with
  | alu | swap | loadImm64 | loadPacket | load | store | atomicAdd =>
    simp [result_settle_eq_ok_iff]
  | call =>
    simp only [false_and, iff_false]
    intro h
    cases execCall_falls_through h
  | ja => simp [eq_comm]
  | jmp cond width source =>
    by_cases hc : cond.holds width (m.regs.get i.dst) (m.operand i source width) = true
    · simp [hc, eq_comm]
    · simp [hc]
  | exit => simp

theorem exec_eq_exit_iff {env : Env σ} {m : Machine} {i : Insn} :
    (exec env m i).result = .ok .exit ↔ i.op = .exit := by
  unfold exec
  cases i.op with
  | alu | swap | loadImm64 | loadPacket | load | store | atomicAdd =>
    simp [result_settle_eq_ok_iff]
  | call =>
    simp only [reduceCtorEq, iff_false]
    intro h
    cases execCall_falls_through h
  | ja => simp
  | jmp cond width source =>
    simp only [reduceCtorEq, iff_false]
    split <;> simp
  | exit => simp

/-! ## The faults of a step -/

/-- The faults that a step raises on a running machine, with the condition of each: the bytes at the
program counter form no instruction, or the instruction is refused, or it jumps out of the
program. -/
inductive StepFaults (d : Decoder) (env : Env σ) (m : Machine) : Fault → Prop
  | undecoded {f : Fault}
      (hd : d.decode m.config.order (m.program.toList.drop (Word.size * m.pc)) = .error f) :
      StepFaults d env m f
  | refused {slot : Slot} {f : Fault}
      (hd : d.decode m.config.order (m.program.toList.drop (Word.size * m.pc)) = .ok slot)
      (hf : slot.insn.Faults env.helpers env.packet m f) : StepFaults d env m f
  | stray {slot : Slot}
      (hd : d.decode m.config.order (m.program.toList.drop (Word.size * m.pc)) = .ok slot)
      (hj : slot.insn.Jumps m) (ht : ¬ m.InProgram (m.target slot.insn.off)) :
      StepFaults d env m (.jumpOutOfRange (m.target slot.insn.off) m.programWords)

theorem StepEffect.stepFaults {d : Decoder} {env : Env σ} {m : Machine}
    {o : Outcome σ (Except Trap Status)} (heff : StepEffect d env m o) (hm : m.state = .running)
    {t : Trap} (h : o.result = .error t) : m.StepFaults d env t.fault := by
  cases heff with
  | halted hne => exact absurd hm hne
  | undecoded _ hd =>
    cases h
    rw [fetch_eq_decode] at hd
    exact .undecoded hd
  | refused _ hd he =>
    cases h
    rw [fetch_eq_decode] at hd
    exact .refused hd (execAt_eq_error_iff.mp he)
  | stray _ hd he ht =>
    cases h
    rw [fetch_eq_decode] at hd
    rw [execAt, exec_eq_branch_iff] at he
    obtain ⟨hj, rfl⟩ := he
    exact .stray hd hj ht
  | next _ hd he => cases h
  | branch _ hd he ht => cases h
  | exit _ hd he => cases h

theorem StepFaults.step {d : Decoder} {env : Env σ} {m : Machine} {f : Fault}
    (h : m.StepFaults d env f) (hm : m.state = .running) :
    ∃ t, (step d env m).result = .error t ∧ t.fault = f := by
  cases h with
  | undecoded hd =>
    rw [← fetch_eq_decode] at hd
    rw [step_undecoded hm hd]
    exact ⟨_, rfl, rfl⟩
  | @refused slot _ hd hf =>
    rw [← fetch_eq_decode] at hd
    rw [step_running hm hd, stepSlot_of_error (execAt_eq_error_iff.mpr hf)]
    exact ⟨_, rfl, rfl⟩
  | @stray slot hd hj ht =>
    rw [← fetch_eq_decode] at hd
    have he : (execAt env m slot.insn).result = .ok (.branch slot.insn.off) :=
      exec_eq_branch_iff.mpr ⟨hj, rfl⟩
    obtain ⟨hmach, henv⟩ := (execAt_effect env m slot.insn).eq_of_flow he (by simp)
    rw [step_running hm hd, stepSlot_of_ok he, hmach, henv, advance_branch, if_neg ht]
    exact ⟨_, rfl, rfl⟩

/-- Whoever jumps and does not trap lands inside the program. -/
theorem StepEffect.pc_lt_of_jump {d : Decoder} {env : Env σ} {m : Machine} {slot : Slot}
    {o : Outcome σ (Except Trap Status)} (heff : StepEffect d env m o)
    (hd : m.fetch d m.pc = .ok slot) (hj : slot.insn.Jumps m) {s : Status} (hs : o.result = .ok s) :
    o.machine.pc < m.programWords := by
  have he : (execAt env m slot.insn).result = .ok (.branch slot.insn.off) :=
    exec_eq_branch_iff.mpr ⟨hj, rfl⟩
  cases heff with
  | halted | undecoded | refused | stray => cases hs
  | next _ hd' he' =>
    rw [hd] at hd'
    cases hd'
    rw [he] at he'
    cases he'
  | branch _ hd' he' ht =>
    obtain ⟨hlow, hhigh⟩ := ht
    show (m.target _).toNat < m.programWords
    omega
  | exit _ hd' he' =>
    rw [hd] at hd'
    cases hd'
    rw [he] at he'
    cases he'

/-! ## Main statement -/

theorem StepFaults.packet_ofBytes {d : Decoder} {env : Env σ} {m : Machine} {bytes : List UInt8}
    (hp : env.packet = some (.ofBytes bytes)) {addr : UInt64} {reason : String} :
    ¬ m.StepFaults d env (.packet addr reason) := by
  intro h
  cases h with
  | undecoded hd => cases (decode_effect _ _ _).ofDecoding hd
  | refused hd hf =>
    cases hf with
    | packetRead hop hp' hb hr =>
      rw [hp] at hp'
      cases hp'
      rw [Packet.read_ofBytes hb] at hr
      cases hr

/-- Exact faults of a step. A running machine traps with a fault if and only if the fault is listed
with its condition; and with a packet held in memory, no step blames the packet itself. -/
theorem step_traps_iff (d : Decoder) (env : Env σ) (m : Machine) (hm : m.state = .running) :
    (∀ f, (∃ t, (step d env m).result = .error t ∧ t.fault = f) ↔ m.StepFaults d env f) ∧
      ∀ bytes, env.packet = some (.ofBytes bytes) →
        ∀ addr reason, ¬ m.StepFaults d env (.packet addr reason) := by
  refine ⟨fun f => ⟨?_, fun h => h.step hm⟩, fun bytes hp addr reason => ?_⟩
  · rintro ⟨t, ht, rfl⟩
    exact (step_effect d env m).stepFaults hm ht
  · exact StepFaults.packet_ofBytes hp

/-- An eight-byte load into the frame register from the very top of the stack: the span is at fault,
not the register. -/
theorem step_traps_iff_load_at_top :
    ((Machine.new { stackSize := 8 }).load [0x79, 0xaa, 0, 0, 0, 0, 0, 0]).state = .running ∧
    ((Machine.new { stackSize := 8 }).load [0x79, 0xaa, 0, 0, 0, 0, 0, 0]).StepFaults {}
      ({} : Env Unit) (.memoryBounds .stack 8 8) :=
  ⟨rfl, ((step_traps_iff {} {} _ rfl).1 _).mp
    ⟨{ pc := 0, word := some [0x79, 0xaa, 0, 0, 0, 0, 0, 0], fault := .memoryBounds .stack 8 8 },
      rfl, rfl⟩⟩

end Machine

end Ebpf

/-
  Code of 32 bits and the high halves of registers. Arithmetic and comparisons of
  32 bits, and byte swaps of 16 and 32, compute from the low halves of their
  operands alone, and what they write has a zero high half; so does a program that
  is made of them, jumps, exits and loads of immediates.

  `high_halves_unseen` compares two machines that differ in the high halves of
  their registers: they stay alike through any number of calls, and a register
  that was written is the same in both. An exit returns the whole of `r0`, which
  nobody may have written, so the values returned are compared by their low
  halves.
-/
import Ebpf.Proofs.Codec
import Ebpf.Proofs.Frame
import Ebpf.Proofs.Lockstep

namespace Ebpf

variable {σ σ' : Type}

/-! ## Low halves of numbers -/

/-- Numbers that agree modulo `2 ^ 32`. -/
def SameLow (x y : UInt64) : Prop :=
  x.toNat % 2 ^ 32 = y.toNat % 2 ^ 32

section Numbers

variable {x x' y y' : UInt64}

theorem SameLow.refl (x : UInt64) : SameLow x x := rfl

theorem SameLow.toUInt32_eq (h : SameLow x y) : x.toUInt32 = y.toUInt32 := by
  apply UInt32.toNat_inj.mp
  rw [UInt64.toNat_toUInt32, UInt64.toNat_toUInt32]
  exact h

theorem SameLow.low_eq (h : SameLow x y) : Width.w32.low x = Width.w32.low y := by
  rw [Width.low, Width.low, h.toUInt32_eq]

theorem SameLow.signed_eq (h : SameLow x y) : Width.w32.signed x = Width.w32.signed y := by
  rw [Width.signed, Width.signed, h.toUInt32_eq]

theorem Width.toNat_low_lt (x : UInt64) : (Width.w32.low x).toNat < 2 ^ 32 := by
  rw [low, UInt32.toNat_toUInt64]
  exact UInt32.toNat_lt _

/-! ## Operations -/

theorem AluOp.execute_congr (op : AluOp) (hx : SameLow x x') (hy : SameLow y y') :
    op.execute .w32 x y = op.execute .w32 x' y' := by
  simp only [execute, hx.low_eq, hy.low_eq, hx.signed_eq]

theorem AluOp.toNat_execute_lt (op : AluOp) (x y : UInt64) :
    (op.execute .w32 x y).toNat < 2 ^ 32 :=
  Width.toNat_low_lt _

theorem Cond.holds_congr (c : Cond) (hx : SameLow x x') (hy : SameLow y y') :
    c.holds .w32 x y = c.holds .w32 x' y' := by
  simp only [holds, hx.low_eq, hy.low_eq, hx.signed_eq, hy.signed_eq]

/-- The lowest four digits are those of the low half. -/
theorem ByteOrder.digits_congr (h : SameLow x y) {n : Nat} (hn : n ≤ 4) :
    digits x n = digits y n := by
  have hdvd : 256 ^ n ∣ 2 ^ 32 := Nat.pow_dvd_pow 256 hn
  have hmod : x.toNat % 256 ^ n = y.toNat % 256 ^ n := by
    rw [← Nat.mod_mod_of_dvd _ hdvd, h, Nat.mod_mod_of_dvd _ hdvd]
  exact digits_eq_of_mod_eq (by omega) hmod

theorem SwapWidth.convert_congr {width : SwapWidth} (hw : width.bytes ≤ 4)
    (native target : ByteOrder) (h : SameLow x y) :
    width.convert native target x = width.convert native target y := by
  rw [convert, convert, ByteOrder.digits_congr h hw]

theorem SwapWidth.toNat_convert_lt (width : SwapWidth) (native target : ByteOrder) (v : UInt64) :
    (width.convert native target v).toNat < 256 ^ width.bytes := by
  have hbytes : width.bytes ≤ 8 := by cases width <;> decide
  rw [convert]
  split
  · have hlt := ByteOrder.toNat_ofDigits_lt (ByteOrder.digits v width.bytes) (by simpa using hbytes)
    rwa [ByteOrder.length_digits] at hlt
  · have hlt := ByteOrder.toNat_ofDigits_lt (ByteOrder.digits v width.bytes).reverse
      (by simpa using hbytes)
    rwa [List.length_reverse, ByteOrder.length_digits] at hlt

end Numbers

/-- The operations that compute from low halves: arithmetic and comparisons of 32 bits, swaps of 16
and 32, and those that look at no register. -/
def Op.LowOnly : Op → Prop
  | .alu _ .w32 _ | .jmp _ .w32 _ | .swap _ .b16 | .swap _ .b32 | .loadImm64 | .ja | .exit => True
  | _ => False

instance : DecidablePred Op.LowOnly
  | .alu _ .w32 _ | .jmp _ .w32 _ | .swap _ .b16 | .swap _ .b32 | .loadImm64 | .ja | .exit =>
    isTrue trivial
  | .alu _ .w64 _ | .jmp _ .w64 _ | .swap _ .b64 | .loadPacket _ _ | .load _ | .store _ _
  | .atomicAdd _ | .call => isFalse id

/-- The operations of these that write a zero high half. -/
def Op.ClearsHigh : Op → Prop
  | .alu _ .w32 _ | .swap _ .b16 | .swap _ .b32 => True
  | _ => False

/-- A status with the low half of the value returned. -/
def Status.low : Status → Status
  | .running => .running
  | .exited r0 => .exited (Width.w32.low r0)

namespace Machine

/-- A machine with other registers. -/
def withRegs (m : Machine) (regs : Registers) : Machine :=
  { m with regs }

/-- Machines that differ in the high halves of registers only. -/
structure LowAlike (m m' : Machine) : Prop where
  regs : ∀ r, SameLow (m.regs.get r) (m'.regs.get r)
  rest : m' = m.withRegs m'.regs

/-! ## One instruction -/

/-- What two machines come to when both write the same value to the same register, or both decide
alike about the program counter. -/
inductive ExecAlike (env : Env σ) (env' : Env σ') (m m' : Machine) (i : Insn) :
    Outcome σ (Except Fault Flow) → Outcome σ' (Except Fault Flow) → Prop
  | write (v : UInt64) (hw : i.written? = some i.dst) (hv : i.op.ClearsHigh → v.toNat < 2 ^ 32) :
      ExecAlike env env' m m' i ((m.writeRegister i.dst v).settle env)
        ((m'.writeRegister i.dst v).settle env')
  | flow (f : Flow) (hw : i.written? = none) :
      ExecAlike env env' m m' i { result := .ok f, machine := m, env }
        { result := .ok f, machine := m', env := env' }

namespace LowAlike

variable {d : Decoder} {m m' : Machine} {i : Insn}

theorem operand (h : LowAlike m m') (i : Insn) (source : Source) :
    SameLow (m.operand i source .w32) (m'.operand i source .w32) := by
  cases source with
  | reg => exact h.regs i.src
  | imm => exact .refl _

theorem exec (h : LowAlike m m') (hop : i.op.LowOnly) (env : Env σ) (env' : Env σ') :
    ExecAlike env env' m m' i (Machine.exec env m i) (Machine.exec env' m' i) := by
  have horder : m'.config.order = m.config.order := by
    rw [h.rest]
    rfl
  unfold Machine.exec
  cases hcase : i.op with
  | alu op width source =>
    have hw : i.written? = some i.dst := by simp only [Insn.written?, hcase]
    rw [hcase] at hop
    cases width with
    | w32 =>
      dsimp only
      rw [← op.execute_congr (h.regs i.dst) (h.operand i source)]
      exact .write _ hw fun _ => op.toNat_execute_lt _ _
    | w64 => cases hop
  | swap target width =>
    have hw : i.written? = some i.dst := by simp only [Insn.written?, hcase]
    have hbytes : width.bytes ≤ 4 := by
      rw [hcase] at hop
      cases width with
      | b16 | b32 => decide
      | b64 => cases hop
    have hpow : 256 ^ width.bytes ≤ 2 ^ 32 := Nat.pow_le_pow_right (n := 256) (by decide) hbytes
    dsimp only
    rw [horder, ← SwapWidth.convert_congr hbytes m.config.order target (h.regs i.dst)]
    exact .write _ hw fun _ => Nat.lt_of_lt_of_le (width.toNat_convert_lt _ _ _) hpow
  | loadImm64 =>
    have hw : i.written? = some i.dst := by simp only [Insn.written?, hcase]
    refine .write _ hw fun hclears => ?_
    rw [hcase] at hclears
    cases hclears
  | ja | exit => exact .flow _ (by simp only [Insn.written?, hcase])
  | jmp cond width source =>
    rw [hcase] at hop
    cases width with
    | w32 =>
      dsimp only
      rw [← cond.holds_congr (h.regs i.dst) (h.operand i source)]
      exact .flow _ (by simp only [Insn.written?, hcase])
    | w64 => cases hop
  | loadPacket | load | store | atomicAdd | call =>
    rw [hcase] at hop
    cases hop

theorem writeRegister (h : LowAlike m m') (r : Reg) (v : UInt64) :
    (m.writeRegister r v).fault? = (m'.writeRegister r v).fault? ∧
      LowAlike (m.writeRegister r v).machine (m'.writeRegister r v).machine := by
  unfold Machine.writeRegister
  split
  · exact ⟨rfl, h⟩
  · refine ⟨rfl, fun q => ?_, ?_⟩
    · by_cases hq : q = r
      · subst hq
        show SameLow ((m.regs.put q v).get q) ((m'.regs.put q v).get q)
        rw [Registers.get_put_self, Registers.get_put_self]
        exact .refl v
      · show SameLow ((m.regs.put r v).get q) ((m'.regs.put r v).get q)
        rw [Registers.get_put_of_ne _ _ hq, Registers.get_put_of_ne _ _ hq]
        exact h.regs q
    · rw [h.rest]
      rfl

end LowAlike

theorem get_writeRegister {m : Machine} {r : Reg} {v : UInt64}
    (h : (m.writeRegister r v).fault? = none) : (m.writeRegister r v).machine.regs.get r = v := by
  unfold writeRegister at h ⊢
  split at h
  · cases h
  · next hr =>
    rw [if_neg hr]
    exact Registers.get_put_self _ _ _

namespace ExecAlike

variable {env : Env σ} {env' : Env σ'} {m m' : Machine} {i : Insn}
  {o : Outcome σ (Except Fault Flow)} {o' : Outcome σ' (Except Fault Flow)}

theorem result_eq (he : ExecAlike env env' m m' i o o') (h : LowAlike m m') :
    o.result = o'.result := by
  cases he with
  | write v hw hv =>
    unfold Attempt.settle
    rw [(h.writeRegister i.dst v).1]
    split <;> rfl
  | flow f hw => rfl

theorem lowAlike (he : ExecAlike env env' m m' i o o') (h : LowAlike m m') :
    LowAlike o.machine o'.machine := by
  cases he with
  | write v hw hv =>
    rw [machine_settle, machine_settle]
    exact (h.writeRegister i.dst v).2
  | flow f hw => exact h

/-- A register that is written holds the same value in both. -/
theorem written (he : ExecAlike env env' m m' i o o') (h : LowAlike m m') {flow : Flow}
    (hok : o.result = .ok flow) {r : Reg} (hr : i.written? = some r) :
    o.machine.regs.get r = o'.machine.regs.get r ∧
      (i.op.ClearsHigh → (o.machine.regs.get r).toNat < 2 ^ 32) := by
  cases he with
  | write v hw hv =>
    rw [hw] at hr
    cases hr
    have hfault := (result_settle_eq_ok_iff.mp hok).1
    have hfault' : (m'.writeRegister i.dst v).fault? = none :=
      (h.writeRegister i.dst v).1.symm.trans hfault
    rw [machine_settle, machine_settle, get_writeRegister hfault, get_writeRegister hfault']
    exact ⟨rfl, hv⟩
  | flow f hw =>
    rw [hw] at hr
    cases hr

end ExecAlike

/-! ## One step -/

namespace LowAlike

variable {d : Decoder} {m m' : Machine}

theorem fetch_eq (h : LowAlike m m') (d : Decoder) : m'.fetch d m'.pc = m.fetch d m.pc := by
  rw [h.rest]
  rfl

theorem trap (h : LowAlike m m') {α : Type} (f : Fault) (env : Env σ) (env' : Env σ') :
    (Machine.trap env m f : Outcome σ (Except Trap α)).result =
        (Machine.trap env' m' f : Outcome σ' (Except Trap α)).result ∧
      LowAlike (Machine.trap env m f : Outcome σ (Except Trap α)).machine
        (Machine.trap env' m' f : Outcome σ' (Except Trap α)).machine := by
  obtain ⟨regs', rfl⟩ : ∃ regs', m' = m.withRegs regs' := ⟨_, h.rest⟩
  refine ⟨rfl, h.regs, ?_⟩
  cases f <;> rfl

theorem advance (h : LowAlike m m') (words : Nat) (flow : Flow) (env : Env σ) (env' : Env σ') :
    (Machine.advance env m words flow).result.map Status.low =
        (Machine.advance env' m' words flow).result.map Status.low ∧
      LowAlike (Machine.advance env m words flow).machine
        (Machine.advance env' m' words flow).machine := by
  obtain ⟨regs', rfl⟩ : ∃ regs', m' = m.withRegs regs' := ⟨_, h.rest⟩
  cases flow with
  | next => exact ⟨rfl, h.regs, rfl⟩
  | branch off =>
    rw [advance_branch, advance_branch]
    -- neither the target nor the size of the program depends on registers
    have hin : (m.withRegs regs').InProgram ((m.withRegs regs').target off) ↔
        m.InProgram (m.target off) := Iff.rfl
    by_cases ht : m.InProgram (m.target off)
    · rw [if_pos ht, if_pos (hin.mpr ht)]
      exact ⟨rfl, h.regs, rfl⟩
    · rw [if_neg ht, if_neg (mt hin.mp ht)]
      exact ⟨congrArg (Except.map Status.low) (h.trap _ env env').1, (h.trap _ env env').2⟩
  | exit =>
    refine ⟨?_, h.regs, rfl⟩
    exact congrArg (fun r0 => Except.ok (Status.exited r0)) (h.regs Reg.result).low_eq

/-- An instruction of the kind does alike to both machines. -/
theorem execAt (h : LowAlike m m') {i : Insn} (hop : i.op.LowOnly) (env : Env σ) (env' : Env σ') :
    ExecAlike (env.announce m.pc i) (env'.announce m'.pc i) m m' i (Machine.execAt env m i)
      (Machine.execAt env' m' i) :=
  h.exec hop _ _

theorem stepSlot (h : LowAlike m m') {slot : Slot} (hop : slot.insn.op.LowOnly) (env : Env σ)
    (env' : Env σ') :
    (Machine.stepSlot env m slot).result.map Status.low =
        (Machine.stepSlot env' m' slot).result.map Status.low ∧
      LowAlike (Machine.stepSlot env m slot).machine (Machine.stepSlot env' m' slot).machine := by
  have hexec := h.execAt hop env env'
  have hresult := hexec.result_eq h
  have hafter := hexec.lowAlike h
  cases he : (Machine.execAt env m slot.insn).result with
  | error f =>
    rw [stepSlot_of_error he, stepSlot_of_error (hresult ▸ he)]
    exact ⟨congrArg (Except.map Status.low) (hafter.trap f _ _).1, (hafter.trap f _ _).2⟩
  | ok flow =>
    rw [stepSlot_of_ok he, stepSlot_of_ok (hresult ▸ he)]
    exact hafter.advance slot.words flow _ _

theorem step (h : LowAlike m m') (hop : m.ExecutesOnly d Op.LowOnly) (env : Env σ)
    (env' : Env σ') :
    (Machine.step d env m).result.map Status.low =
        (Machine.step d env' m').result.map Status.low ∧
      LowAlike (Machine.step d env m).machine (Machine.step d env' m').machine := by
  have hstate : m'.state = m.state := by
    rw [h.rest]
    rfl
  have hfetch := h.fetch_eq d
  by_cases hm : m.state = .running
  · have hm' : m'.state = .running := hstate.trans hm
    cases hd : m.fetch d m.pc with
    | error f =>
      rw [step_undecoded hm hd, step_undecoded hm' (hfetch.trans hd)]
      exact ⟨congrArg (Except.map Status.low) (h.trap f _ _).1, (h.trap f _ _).2⟩
    | ok slot =>
      rw [step_running hm hd, step_running hm' (hfetch.trans hd)]
      exact h.stepSlot (hop hm slot hd) env env'
  · have hm' : m'.state ≠ .running := hstate ▸ hm
    rw [step_halted d env hm, step_halted d env' hm', hstate]
    exact ⟨congrArg (Except.map Status.low) (h.trap _ _ _).1, (h.trap _ _ _).2⟩

end LowAlike

/-! ## Written registers -/

/-- The register that a step writes and the operation that writes it, if the step succeeds and
writes one. -/
def written? (d : Decoder) (env : Env σ) (m : Machine) : Option (Reg × Op) :=
  match (step d env m).result with
  | .error _ => none
  | .ok _ =>
    match m.fetch d m.pc with
    | .error _ => none
    | .ok slot => slot.insn.written?.map fun r => (r, slot.insn.op)

/-- The operation that wrote a register last within `n` calls of `step`, if one did. -/
def lastWriter (d : Decoder) (env : Env σ) (m : Machine) (r : Reg) : Nat → Option Op
  | 0 => none
  | n + 1 =>
    match written? d (afterCalls d n env m).1 (afterCalls d n env m).2 with
    | some (q, op) => if q = r then some op else lastWriter d env m r n
    | none => lastWriter d env m r n

section Written

variable {d : Decoder} {env : Env σ} {env' : Env σ'} {m m' : Machine} {r : Reg} {op : Op}
  {o : Outcome σ (Except Trap Status)}

theorem ExecEffect.regs_of_error {o : Outcome σ (Except Fault Flow)} (h : ExecEffect env m o)
    {f : Fault} (hf : o.result = .error f) : o.machine.regs = m.regs := by
  cases h with
  | attempt h =>
    rw [machine_settle]
    rw [result_settle_eq_error_iff] at hf
    cases h with
    | refused f => rfl
    | register hr v => cases hf
    | cell hb v => cases hf
  | flow f => rfl
  | callFailed ht hr => rfl
  | callReturned ht hr => cases hf

theorem StepEffect.regs_of_error (h : StepEffect d env m o) {t : Trap} (ht : o.result = .error t) :
    o.machine.regs = m.regs := by
  cases h with
  | halted | undecoded | stray => rfl
  | refused hm hd he => exact (execAt_effect env m _).regs_of_error he
  | next | branch | exit => cases ht

/-- A step that succeeds leaves the registers that its instruction left. -/
theorem StepEffect.regs_of_ok (h : StepEffect d env m o) {status : Status}
    (hs : o.result = .ok status) :
    ∃ slot flow, m.state = .running ∧ m.fetch d m.pc = .ok slot ∧
      (execAt env m slot.insn).result = .ok flow ∧
      o.machine.regs = (execAt env m slot.insn).machine.regs := by
  cases h with
  | halted | undecoded | refused | stray => cases hs
  | next hm hd he => exact ⟨_, _, hm, hd, he, rfl⟩
  | branch hm hd he ht =>
    refine ⟨_, _, hm, hd, he, ?_⟩
    rw [((execAt_effect env m _).eq_of_flow he (by simp)).1]
  | exit hm hd he =>
    refine ⟨_, _, hm, hd, he, ?_⟩
    rw [((execAt_effect env m _).eq_of_flow he (by simp)).1]

theorem written?_eq_some_iff :
    written? d env m = some (r, op) ↔
      ∃ slot status, m.fetch d m.pc = .ok slot ∧ (step d env m).result = .ok status ∧
        slot.insn.written? = some r ∧ slot.insn.op = op := by
  unfold written?
  cases (step d env m).result with
  | error t => simp
  | ok status =>
    cases m.fetch d m.pc with
    | error f => simp
    | ok slot =>
      dsimp only
      rw [Option.map_eq_some_iff]
      constructor
      · rintro ⟨q, hq, heq⟩
        cases heq
        exact ⟨slot, status, rfl, rfl, hq, rfl⟩
      · rintro ⟨_, _, hd, -, hr, rfl⟩
        cases hd
        exact ⟨r, hr, rfl⟩

/-- A register that a step does not write is as before. -/
theorem regs_step_of_unwritten (h : ∀ op, written? d env m ≠ some (r, op)) :
    (step d env m).machine.regs.get r = m.regs.get r := by
  cases hs : (step d env m).result with
  | error t => rw [(step_effect d env m).regs_of_error hs]
  | ok status =>
    obtain ⟨slot, flow, -, hd, -, hregs⟩ := (step_effect d env m).regs_of_ok hs
    rw [hregs]
    refine regs_exec_of_ne _ m slot.insn fun hw => ?_
    exact h _ (written?_eq_some_iff.mpr ⟨slot, status, hd, hs, hw, rfl⟩)

theorem lastWriter_of_written {n : Nat}
    (h : written? d (afterCalls d n env m).1 (afterCalls d n env m).2 = some (r, op)) :
    lastWriter d env m r (n + 1) = some op := by
  rw [lastWriter, h]
  exact if_pos rfl

theorem lastWriter_of_unwritten {n : Nat}
    (h : ∀ op, written? d (afterCalls d n env m).1 (afterCalls d n env m).2 ≠ some (r, op)) :
    lastWriter d env m r (n + 1) = lastWriter d env m r n := by
  rw [lastWriter]
  split
  · next q op hw =>
    refine if_neg fun hq => ?_
    rw [hq] at hw
    exact h op hw
  · rfl

namespace LowAlike

theorem written?_eq (h : LowAlike m m') (hop : m.ExecutesOnly d Op.LowOnly) (env : Env σ)
    (env' : Env σ') : written? d env' m' = written? d env m := by
  have hresult := (h.step hop env env').1
  unfold written?
  rw [h.fetch_eq]
  cases hs : (Machine.step d env m).result with
  | error t =>
    cases hs' : (Machine.step d env' m').result with
    | error t' => rfl
    | ok status' =>
      rw [hs, hs'] at hresult
      cases hresult
  | ok status =>
    cases hs' : (Machine.step d env' m').result with
    | error t' =>
      rw [hs, hs'] at hresult
      cases hresult
    | ok status' => rfl

/-- A step that writes a register writes the same value on both sides. -/
theorem get_written (h : LowAlike m m') (hop : m.ExecutesOnly d Op.LowOnly)
    (hw : written? d env m = some (r, op)) (env' : Env σ') :
    (Machine.step d env m).machine.regs.get r = (Machine.step d env' m').machine.regs.get r ∧
      (op.ClearsHigh → ((Machine.step d env m).machine.regs.get r).toNat < 2 ^ 32) := by
  have hw' := (h.written?_eq hop env env').trans hw
  obtain ⟨slot, status, hd, hs, hr, rfl⟩ := written?_eq_some_iff.mp hw
  obtain ⟨_, status', -, hs', -, -⟩ := written?_eq_some_iff.mp hw'
  obtain ⟨slot₁, flow, hm, hd₁, he, hregs⟩ := (step_effect d env m).regs_of_ok hs
  obtain ⟨slot₂, _, -, hd₂, -, hregs'⟩ := (step_effect d env' m').regs_of_ok hs'
  -- both machines stand at the same instruction
  rw [h.fetch_eq, hd] at hd₂
  rw [hd] at hd₁
  cases hd₁
  cases hd₂
  rw [hregs, hregs']
  exact (h.execAt (hop hm slot hd) env env').written h he hr

end LowAlike

end Written

/-! ## Any number of calls -/

namespace LowAlike

variable {d : Decoder} {m m' : Machine}

theorem afterCalls (h : LowAlike m m') (env : Env σ) (env' : Env σ') {n : Nat}
    (hkind : ∀ k < n, (Machine.afterCalls d k env m).2.ExecutesOnly d Op.LowOnly) :
    LowAlike (Machine.afterCalls d n env m).2 (Machine.afterCalls d n env' m').2 := by
  induction n with
  | zero => exact h
  | succ n ih =>
    have hbefore := ih fun k hk => hkind k (Nat.lt_succ_of_lt hk)
    rw [afterCalls_succ, afterCalls_succ]
    exact (hbefore.step (hkind n (Nat.lt_succ_self n)) _ _).2

/-- What holds of a register that was written: its last writer is the same on both sides, and so is
its value. -/
theorem get_lastWriter (h : LowAlike m m') (env : Env σ) (env' : Env σ') {n : Nat}
    (hkind : ∀ k < n, (Machine.afterCalls d k env m).2.ExecutesOnly d Op.LowOnly) (r : Reg) :
    lastWriter d env' m' r n = lastWriter d env m r n ∧
      ∀ op, lastWriter d env m r n = some op →
        (Machine.afterCalls d n env m).2.regs.get r = (Machine.afterCalls d n env' m').2.regs.get r ∧
          (op.ClearsHigh → ((Machine.afterCalls d n env m).2.regs.get r).toNat < 2 ^ 32) := by
  induction n with
  | zero =>
    refine ⟨rfl, fun op hop => ?_⟩
    cases hop
  | succ n ih =>
    have hfewer : ∀ k < n, (Machine.afterCalls d k env m).2.ExecutesOnly d Op.LowOnly :=
      fun k hk => hkind k (Nat.lt_succ_of_lt hk)
    have hlast := hkind n (Nat.lt_succ_self n)
    have halike := h.afterCalls env env' hfewer
    have hsame := halike.written?_eq hlast (Machine.afterCalls d n env m).1
      (Machine.afterCalls d n env' m').1
    obtain ⟨hwriter, hget⟩ := ih hfewer
    rw [afterCalls_succ, afterCalls_succ]
    by_cases hw : ∃ op, written? d (Machine.afterCalls d n env m).1
        (Machine.afterCalls d n env m).2 = some (r, op)
    · obtain ⟨op, hw⟩ := hw
      rw [lastWriter_of_written hw, lastWriter_of_written (hsame.trans hw)]
      refine ⟨rfl, fun op' hop => ?_⟩
      cases hop
      exact halike.get_written hlast hw _
    · rw [not_exists] at hw
      have hw' : ∀ op, written? d (Machine.afterCalls d n env' m').1
          (Machine.afterCalls d n env' m').2 ≠ some (r, op) := by
        rw [hsame]
        exact hw
      rw [lastWriter_of_unwritten hw, lastWriter_of_unwritten hw', regs_step_of_unwritten hw,
        regs_step_of_unwritten hw']
      exact ⟨hwriter, hget⟩

end LowAlike

/-! ## Main statement -/

/-- Code of 32 bits does not see high halves. Take machines that are equal but for the high halves
of registers, in any surroundings. For as long as the instructions executed compute from low halves,
every call of `step` returns the same trap on both sides, or the same status with the same low half
of `r0` if it is an exit; and after it the machines are still equal but for high halves. A register
that was written on the way, by the same operation on both sides, holds the same number in both, with
a zero high half if the last to write it was 32-bit arithmetic or a swap. -/
theorem high_halves_unseen (d : Decoder) (env : Env σ) (env' : Env σ') (m m' : Machine)
    (h : LowAlike m m') (n : Nat)
    (hkind : ∀ k ≤ n, (afterCalls d k env m).2.ExecutesOnly d Op.LowOnly) :
    (answerAfter d n env m).map Status.low = (answerAfter d n env' m').map Status.low ∧
      LowAlike (afterCalls d (n + 1) env m).2 (afterCalls d (n + 1) env' m').2 ∧
      ∀ r, lastWriter d env' m' r (n + 1) = lastWriter d env m r (n + 1) ∧
        ∀ op, lastWriter d env m r (n + 1) = some op →
          (afterCalls d (n + 1) env m).2.regs.get r =
              (afterCalls d (n + 1) env' m').2.regs.get r ∧
            (op.ClearsHigh → ((afterCalls d (n + 1) env m).2.regs.get r).toNat < 2 ^ 32) := by
  have hbelow : ∀ k < n + 1, (afterCalls d k env m).2.ExecutesOnly d Op.LowOnly :=
    fun k hk => hkind k (Nat.le_of_lt_succ hk)
  have hbefore := h.afterCalls env env' fun k hk => hkind k (Nat.le_of_lt hk)
  refine ⟨?_, h.afterCalls env env' hbelow, fun r => h.get_lastWriter env env' hbelow r⟩
  exact (hbefore.step (hkind n (Nat.le_refl n)) _ _).1

/-- A machine with `mov32 r0, r1`, `arsh32 r0, 1` and `exit`. -/
def halving : Machine :=
  (Machine.new { stackSize := 8 }).load
    [0xbc, 0x10, 0, 0, 0, 0, 0, 0, 0xc4, 0, 0, 0, 1, 0, 0, 0, 0x95, 0, 0, 0, 0, 0, 0, 0]

/-- Two numbers in `r1` have the same low half, whose sign bit is set, and different high halves.
After three calls both machines have the same number in `r0`, its high half zero. -/
theorem high_halves_unseen_halving :
    let m := halving.withRegs (halving.regs.put 1 0x180000000)
    let m' := halving.withRegs (halving.regs.put 1 0xdeadbeef80000000)
    let after := (afterCalls {} 3 ({} : Env Unit) m).2
    let after' := (afterCalls {} 3 ({} : Env Unit) m').2
    LowAlike m m' ∧ lastWriter {} ({} : Env Unit) m 0 3 = some (.alu .arsh .w32 .imm) ∧
      LowAlike after after' ∧ after.regs.get 0 = after'.regs.get 0 ∧
      (after.regs.get 0).toNat < 2 ^ 32 ∧ after'.regs.get 0 = 0xc0000000 ∧
      after.regs.get 1 ≠ after'.regs.get 1 := by
  intro m m' after after'
  have halike : LowAlike m m' := ⟨by unfold SameLow; decide, rfl⟩
  have hkind : ∀ k ≤ 2, (afterCalls {} k ({} : Env Unit) m).2.ExecutesOnly {} Op.LowOnly := by
    decide +kernel
  have hwriter : lastWriter {} ({} : Env Unit) m 0 3 = some (.alu .arsh .w32 .imm) := by
    decide +kernel
  obtain ⟨-, hafter, hregs⟩ := high_halves_unseen {} ({} : Env Unit) ({} : Env Unit) m m' halike 2
    hkind
  obtain ⟨hsame, hhigh⟩ := (hregs 0).2 _ hwriter
  exact ⟨halike, hwriter, hafter, hsame, hhigh trivial, by decide +kernel, by decide +kernel⟩

end Machine

end Ebpf

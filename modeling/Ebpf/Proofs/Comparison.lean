/-
  Conditional jumps against the order of integers. `Cond.Relates` says when each
  condition holds, on numbers of any count of bits: most compare them as they are,
  four in two's complement. Machines compare 64-bit numbers for both widths, and
  cut an immediate before they do; `holds_iff` and `residue_operand` say that
  neither shows.

  `jump_exact`: an instruction branches exactly if its operands are so related, and
  changes nothing; and of two instructions with opposite conditions one branches
  and the other does not.
-/
import Ebpf.Proofs.Operands

namespace Ebpf

variable {σ : Type}

namespace Cond

/-! ## Conditions on numbers -/

/-- When a condition holds between two numbers of `w` bits. -/
def Relates (c : Cond) (w x y : Nat) : Prop :=
  match c with
  | eq => x = y
  | ne => x ≠ y
  | gt => x > y
  | ge => x ≥ y
  | lt => x < y
  | le => x ≤ y
  | sgt => twosComplement w x > twosComplement w y
  | sge => twosComplement w x ≥ twosComplement w y
  | slt => twosComplement w x < twosComplement w y
  | sle => twosComplement w x ≤ twosComplement w y
  | set => ∃ k, x.testBit k = true ∧ y.testBit k = true

theorem land_ne_zero_iff {x y : Nat} :
    x &&& y ≠ 0 ↔ ∃ k, x.testBit k = true ∧ y.testBit k = true := by
  constructor
  · intro hne
    obtain ⟨k, hk⟩ := Nat.exists_testBit_of_ne_zero hne
    rw [Nat.testBit_and, Bool.and_eq_true] at hk
    exact ⟨k, hk⟩
  · rintro ⟨k, hx, hy⟩ hzero
    have hk := Nat.testBit_and x y k
    rw [hzero, hx, hy, Nat.zero_testBit] at hk
    cases hk

instance (c : Cond) (w x y : Nat) : Decidable (c.Relates w x y) :=
  match c with
  | eq => inferInstanceAs (Decidable (x = y))
  | ne => inferInstanceAs (Decidable (x ≠ y))
  | gt => inferInstanceAs (Decidable (x > y))
  | ge => inferInstanceAs (Decidable (x ≥ y))
  | lt => inferInstanceAs (Decidable (x < y))
  | le => inferInstanceAs (Decidable (x ≤ y))
  | sgt => inferInstanceAs (Decidable (twosComplement w x > twosComplement w y))
  | sge => inferInstanceAs (Decidable (twosComplement w x ≥ twosComplement w y))
  | slt => inferInstanceAs (Decidable (twosComplement w x < twosComplement w y))
  | sle => inferInstanceAs (Decidable (twosComplement w x ≤ twosComplement w y))
  | set => decidable_of_iff (x &&& y ≠ 0) land_ne_zero_iff

/-- Whether a condition holds depends on the numbers that a width leaves, and is what the order of
integers says about them. -/
theorem holds_iff (c : Cond) (width : Width) (x y : UInt64) :
    c.holds width x y = true ↔
      c.Relates width.bits (width.residue x.toNat) (width.residue y.toNat) := by
  cases c with
  | eq | ne =>
    simp only [holds, Relates, decide_eq_true_iff, ← Width.toNat_low, ne_eq, UInt64.toNat_inj]
  | gt | ge | lt | le =>
    simp only [holds, Relates, decide_eq_true_iff, ← Width.toNat_low, gt_iff_lt, ge_iff_le,
      UInt64.lt_iff_toNat_lt, UInt64.le_iff_toNat_le]
  | sgt | sge | slt | sle =>
    simp only [holds, Relates, decide_eq_true_iff, ← Width.toInt_signed, gt_iff_lt, ge_iff_le,
      Int64.lt_iff_toInt_lt, Int64.le_iff_toInt_le]
  | set =>
    simp only [holds, Relates, decide_eq_true_iff, ← Width.toNat_low, ← land_ne_zero_iff, ne_eq,
      ← UInt64.toNat_and, ← UInt64.toNat_inj, UInt64.toNat_zero]

/-! ## Opposite conditions -/

/-- The pairs of conditions of which exactly one holds. Nothing is opposite to sharing a bit. -/
inductive Opposite : Cond → Cond → Prop
  | eqNe : Opposite eq ne
  | gtLe : Opposite gt le
  | geLt : Opposite ge lt
  | sgtSle : Opposite sgt sle
  | sgeSlt : Opposite sge slt

namespace Opposite

variable {c c' : Cond}

theorem relates_iff (h : Opposite c c') (w x y : Nat) :
    c'.Relates w x y ↔ ¬ c.Relates w x y := by
  cases h with
  | eqNe => exact Iff.rfl
  | gtLe | geLt | sgtSle | sgeSlt =>
    unfold Relates
    omega

theorem holds_eq_not (h : Opposite c c') (width : Width) (x y : UInt64) :
    c'.holds width x y = !c.holds width x y := by
  apply Bool.eq_iff_iff.mpr
  rw [Bool.not_eq_true', ← Bool.not_eq_true, c'.holds_iff, c.holds_iff]
  exact h.relates_iff _ _ _

end Opposite

end Cond

namespace Machine

/-! ## Main statement -/

theorem exec_jmp {i : Insn} {cond : Cond} {width : Width} {source : Source}
    (hop : i.op = .jmp cond width source) (env : Env σ) (m : Machine) :
    exec env m i =
      let taken := cond.holds width (m.regs.get i.dst) (m.operand i source width)
      { result := .ok (if taken then .branch i.off else .next), machine := m, env } := by
  rw [exec, hop]

/-- Comparisons are exact, for every condition, both widths and all operands. A decoded conditional
jump branches if the destination register and the source register, or the signed 32-bit number in its
word, are related modulo `2 ^ 32` or `2 ^ 64` as the condition says; otherwise the next instruction
follows, and either way nothing changes. Of two jumps with the same operands and opposite conditions
one branches and the other does not. -/
theorem jump_exact :
    (∀ (d : Decoder) (o : ByteOrder) (bytes : List UInt8) (slot : Slot) (cond : Cond)
      (width : Width) (source : Source), d.decode o bytes = .ok slot →
      slot.insn.op = .jmp cond width source → ∀ (env : Env σ) (m : Machine),
        let related := cond.Relates width.bits (width.residue (m.regs.get slot.insn.dst).toNat)
          (width.residue (m.operandInt o bytes slot.insn source))
        let done := exec env m slot.insn
        (done.result = .ok (.branch slot.insn.off) ↔ related) ∧
          (done.result = .ok .next ↔ ¬ related) ∧ done.machine = m ∧ done.env = env) ∧
    ∀ (c c' : Cond), c.Opposite c' → ∀ (width : Width) (source : Source) (i i' : Insn),
      i.op = .jmp c width source → i'.op = .jmp c' width source →
      i'.dst = i.dst → i'.src = i.src → i'.imm = i.imm → ∀ (env : Env σ) (m : Machine),
        ((exec env m i).result = .ok (.branch i.off) ∧ (exec env m i').result = .ok .next) ∨
          ((exec env m i).result = .ok .next ∧ (exec env m i').result = .ok (.branch i'.off)) := by
  constructor
  · intro d o bytes slot cond width source hd hop env m related done
    have hwide : d.isWide slot.insn.op = false := by
      rw [hop]
      rfl
    have hrelated : related ↔
        cond.holds width (m.regs.get slot.insn.dst) (m.operand slot.insn source width) = true := by
      rw [cond.holds_iff, residue_operand hd hwide]
    rw [hrelated, show done = _ from exec_jmp hop env m]
    cases cond.holds width (m.regs.get slot.insn.dst) (m.operand slot.insn source width) <;> simp
  · intro c c' hopp width source i i' hop hop' hdst hsrc himm env m
    have hoperand : m.operand i' source width = m.operand i source width := by
      unfold operand
      rw [hsrc, himm]
    rw [exec_jmp hop, exec_jmp hop', hdst, hoperand, hopp.holds_eq_not]
    cases c.holds width (m.regs.get i.dst) (m.operand i source width) with
    | true => exact .inl ⟨rfl, rfl⟩
    | false => exact .inr ⟨rfl, rfl⟩

/-- `jsgt32 r0, -1, +5`. -/
def ifAbove : Insn :=
  { op := .jmp .sgt .w32 .imm
    opcode := 0x66
    dst := Reg.result
    src := Reg.result
    off := 5
    imm := -1 }

/-- `jsle32 r0, -1, +5`. -/
def ifNotAbove : Insn :=
  { ifAbove with op := .jmp .sle .w32 .imm, opcode := 0xd6 }

/-- The low half of `r0` is zero, which is above minus one as a signed number only; the whole of `r0`
is below it either way. -/
theorem jump_exact_ifAbove :
    let bytes : List UInt8 := [0x66, 0, 5, 0, 0xff, 0xff, 0xff, 0xff]
    let regs := Registers.zero.put Reg.result 0xffffffff00000000
    let m : Machine := { Machine.new { stackSize := 8 } with regs }
    Decoder.decode {} .little bytes = .ok { insn := ifAbove, wide := false } ∧
      (exec ({} : Env Unit) m ifAbove).result = .ok (.branch 5) ∧
      (exec ({} : Env Unit) m ifNotAbove).result = .ok .next := by
  intro bytes regs m
  have hdecode : Decoder.decode {} .little bytes = .ok { insn := ifAbove, wide := false } := rfl
  have hbranch : (exec ({} : Env Unit) m ifAbove).result = .ok (.branch 5) :=
    (jump_exact.1 {} .little bytes _ _ _ _ hdecode rfl {} m).1.mpr (by decide)
  refine ⟨hdecode, hbranch, ?_⟩
  obtain ⟨-, hnext⟩ | ⟨hnext, -⟩ :=
    jump_exact.2 _ _ .sgtSle .w32 .imm ifAbove ifNotAbove rfl rfl rfl rfl rfl {} m
  · exact hnext
  · rw [hbranch] at hnext
    cases hnext

end Machine

end Ebpf

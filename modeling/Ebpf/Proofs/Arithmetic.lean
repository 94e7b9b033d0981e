/-
  Arithmetic against exact integers. `AluOp.value` says what each operation
  computes, on numbers of any count of bits, with integers that do not wrap
  except where it says so. The operations themselves are done in 64 bits for both
  widths and cut at the end: what they give is congruent to the exact result
  modulo `2 ^ 64`, or it is the exact result and fits (`toInt_execute`).

  `alu_exact` adds what an instruction does with it: the operands are taken from
  the registers and from the bytes of its word, and the result goes to the
  destination register and nowhere else.
-/
import Ebpf.Proofs.Exec
import Ebpf.Proofs.Operands

namespace Ebpf

variable {σ : Type}

/-! ## Operations of 64 bits -/

section Words

variable (x y : UInt64)

theorem natCast_toNat_add : ((x + y).toNat : Int) = (x.toNat + y.toNat) % 2 ^ 64 := by
  rw [UInt64.toNat_add]
  omega

theorem natCast_toNat_sub : ((x - y).toNat : Int) = (x.toNat - y.toNat) % 2 ^ 64 := by
  have hlt := y.toNat_lt
  rw [UInt64.toNat_sub]
  omega

theorem natCast_toNat_neg : ((-x).toNat : Int) = (-x.toNat) % 2 ^ 64 := by
  have hlt := x.toNat_lt
  rw [UInt64.toNat_neg, UInt64.size]
  omega

theorem natCast_toNat_mul : ((x * y).toNat : Int) = x.toNat * y.toNat % 2 ^ 64 := by
  rw [UInt64.toNat_mul, Int.natCast_emod, Int.natCast_mul]
  rfl

theorem natCast_toNat_shiftLeft (h : y.toNat < 64) :
    ((x <<< y).toNat : Int) = x.toNat * 2 ^ y.toNat % 2 ^ 64 := by
  rw [UInt64.toNat_shiftLeft, Nat.mod_eq_of_lt h, Nat.shiftLeft_eq, Int.natCast_emod,
    Int.natCast_mul, Int.natCast_pow]
  rfl

theorem toNat_shiftRight_of_lt (h : y.toNat < 64) : (x >>> y).toNat = x.toNat / 2 ^ y.toNat := by
  rw [UInt64.toNat_shiftRight, Nat.mod_eq_of_lt h, Nat.shiftRight_eq_div_pow]

theorem natCast_toNat_sshiftRight (v : Int64) (k : Nat) :
    ((v.toBitVec.sshiftRight k).toNat : Int) = v.toInt / 2 ^ k % 2 ^ 64 := by
  have hmod := Int.bmod_emod (x := ((v.toBitVec.sshiftRight k).toNat : Int)) (m := 2 ^ 64)
  have hlt := (v.toBitVec.sshiftRight k).isLt
  have hshift : ((v.toBitVec.sshiftRight k).toNat : Int).bmod (2 ^ 64) = v.toInt / 2 ^ k := by
    rw [← BitVec.toInt_eq_toNat_bmod, BitVec.toInt_sshiftRight, Int.shiftRight_eq_div_pow]
    push_cast
    rfl
  rw [hshift] at hmod
  omega

end Words

namespace AluOp

/-! ## Exact results -/

/-- The result of an operation on two numbers of `w` bits. Division of integers rounds down, since no
divisor here is negative. -/
def value (op : AluOp) (w x y : Nat) : Int :=
  match op with
  | add => (x + y) % 2 ^ w
  | sub => (x - y) % 2 ^ w
  | mul => x * y % 2 ^ w
  | div => if y = 0 then 0 else x / y
  | mod => if y = 0 then 0 else x % y
  | or => (x ||| y : Nat)
  | and => (x &&& y : Nat)
  | xor => (x ^^^ y : Nat)
  | lsh => x * 2 ^ (y % w) % 2 ^ w
  | rsh => x / 2 ^ (y % w)
  | arsh => twosComplement w x / 2 ^ (y % w) % 2 ^ w
  | neg => (-x) % 2 ^ w
  | mov => y

/-- What is congruent to an integer in 64 bits is so in the bits of a width. -/
theorem low_of_wrapped (width : Width) {r : UInt64} {n : Int} (h : (r.toNat : Int) = n % 2 ^ 64) :
    ((width.low r).toNat : Int) = n % 2 ^ width.bits := by
  rw [Width.toNat_low, h, Width.residue_emod, Width.natCast_residue]

/-- What fits is not cut. -/
theorem low_of_fits (width : Width) {r : UInt64} {n : Nat} (h : r.toNat = n)
    (hfits : n < 2 ^ width.bits) : ((width.low r).toNat : Int) = n := by
  rw [Width.toNat_low, h, Width.residue_of_lt hfits]

theorem low_div (width : Width) {x : UInt64} (y : UInt64) (hx : x.toNat < 2 ^ width.bits) :
    ((width.low (x / y)).toNat : Int) = if y.toNat = 0 then 0 else (x.toNat : Int) / y.toNat := by
  have hfits : x.toNat / y.toNat < 2 ^ width.bits := Nat.lt_of_le_of_lt (Nat.div_le_self _ _) hx
  rw [low_of_fits width (UInt64.toNat_div x y) hfits, Int.natCast_ediv]
  split
  · next hzero => rw [hzero, Int.natCast_zero, Int.ediv_zero]
  · rfl

theorem low_mod (width : Width) {x : UInt64} (y : UInt64) (hx : x.toNat < 2 ^ width.bits) :
    ((width.low (if y = 0 then 0 else x % y)).toNat : Int) =
      if y.toNat = 0 then 0 else (x.toNat : Int) % y.toNat := by
  have hiff : y.toNat = 0 ↔ y = 0 := UInt64.toNat_inj (b := 0)
  have hfits : x.toNat % y.toNat < 2 ^ width.bits := Nat.lt_of_le_of_lt (Nat.mod_le _ _) hx
  simp only [hiff]
  split
  · exact low_of_fits width rfl (Nat.two_pow_pos width.bits)
  · rw [low_of_fits width (UInt64.toNat_mod x y) hfits, Int.natCast_emod]

theorem low_shiftRight (width : Width) {x y : UInt64} (hy : y.toNat < 64)
    (hx : x.toNat < 2 ^ width.bits) :
    ((width.low (x >>> y)).toNat : Int) = (x.toNat : Int) / 2 ^ y.toNat := by
  have hfits : x.toNat / 2 ^ y.toNat < 2 ^ width.bits := Nat.lt_of_le_of_lt (Nat.div_le_self _ _) hx
  rw [low_of_fits width (toNat_shiftRight_of_lt x y hy) hfits, Int.natCast_ediv, Int.natCast_pow]
  rfl

theorem toInt_execute (op : AluOp) (width : Width) (dst src : UInt64) :
    ((op.execute width dst src).toNat : Int) =
      op.value width.bits (width.residue dst.toNat) (width.residue src.toNat) := by
  have hsigned := width.toInt_signed dst
  have hx := width.toNat_low dst
  have hy := width.toNat_low src
  have hxlt := width.residue_lt dst.toNat
  have hylt := width.residue_lt src.toNat
  have hk := width.toNat_shift (width.low src)
  have hklt : (width.shift (width.low src)).toNat < 64 := by
    rw [hk]
    cases width <;> simp only [Width.bits] <;> omega
  rw [← hx] at hsigned hxlt ⊢
  rw [← hy] at hylt ⊢
  unfold execute
  dsimp only
  generalize width.low dst = x at *
  generalize width.low src = y at *
  cases op with
  | add => exact low_of_wrapped width (natCast_toNat_add x y)
  | sub => exact low_of_wrapped width (natCast_toNat_sub x y)
  | mul => exact low_of_wrapped width (natCast_toNat_mul x y)
  | div => exact low_div width y hxlt
  | mod => exact low_mod width y hxlt
  | or => exact low_of_fits width (UInt64.toNat_or x y) (Nat.or_lt_two_pow hxlt hylt)
  | and => exact low_of_fits width (UInt64.toNat_and x y) (Nat.and_lt_two_pow _ hylt)
  | xor => exact low_of_fits width (UInt64.toNat_xor x y) (Nat.xor_lt_two_pow hxlt hylt)
  | lsh =>
    rw [value, ← hk]
    exact low_of_wrapped width (natCast_toNat_shiftLeft x _ hklt)
  | rsh =>
    rw [value, ← hk]
    exact low_shiftRight width hklt hxlt
  | arsh =>
    rw [value, ← hk, ← hsigned]
    exact low_of_wrapped width (natCast_toNat_sshiftRight _ _)
  | neg => exact low_of_wrapped width (natCast_toNat_neg x)
  | mov => exact low_of_fits width rfl hylt

theorem toNat_execute_lt_two_pow (op : AluOp) (width : Width) (dst src : UInt64) :
    (op.execute width dst src).toNat < 2 ^ width.bits := by
  unfold execute
  dsimp only
  rw [Width.toNat_low]
  exact width.residue_lt _

end AluOp

/-! ## Main statement -/

namespace Machine

theorem settle_writeRegister (m : Machine) (r : Reg) (v : UInt64) (env : Env σ) :
    (m.writeRegister r v).settle env =
      if r = Reg.frame then { result := .error .frameRegisterWrite, machine := m, env }
      else { result := .ok .next, machine := { m with regs := m.regs.put r v }, env } := by
  unfold writeRegister
  split <;> rfl

/-- Arithmetic is exact, for every operation, both widths and all operands. A result is that of the
operation on integers, applied to the operands modulo `2 ^ 32` or `2 ^ 64`, and is below that number.
A decoded instruction computes it from the destination register and from the source register, or the
signed 32-bit number in its word, and writes it to the destination register; but the frame register
is refused, and nothing changes. -/
theorem alu_exact :
    (∀ (op : AluOp) (width : Width) (dst src : UInt64),
      ((op.execute width dst src).toNat : Int) =
          op.value width.bits (width.residue dst.toNat) (width.residue src.toNat) ∧
        (op.execute width dst src).toNat < 2 ^ width.bits) ∧
    ∀ (d : Decoder) (o : ByteOrder) (bytes : List UInt8) (slot : Slot) (op : AluOp) (width : Width)
      (source : Source), d.decode o bytes = .ok slot → slot.insn.op = .alu op width source →
      ∀ (env : Env σ) (m : Machine), ∃ v : UInt64,
        (v.toNat : Int) = op.value width.bits (width.residue (m.regs.get slot.insn.dst).toNat)
          (width.residue (m.operandInt o bytes slot.insn source)) ∧
        exec env m slot.insn =
          if slot.insn.dst = Reg.frame then
            { result := .error .frameRegisterWrite, machine := m, env }
          else
            { result := .ok .next
              machine := { m with regs := m.regs.put slot.insn.dst v }
              env } := by
  refine ⟨fun op width dst src => ⟨op.toInt_execute width dst src,
    op.toNat_execute_lt_two_pow width dst src⟩, ?_⟩
  intro d o bytes slot op width source hd hop env m
  have hwide : d.isWide slot.insn.op = false := by
    rw [hop]
    rfl
  refine ⟨op.execute width (m.regs.get slot.insn.dst) (m.operand slot.insn source width), ?_, ?_⟩
  · rw [op.toInt_execute, residue_operand hd hwide]
  · rw [exec, hop]
    exact settle_writeRegister m slot.insn.dst _ env

/-- `arsh32 r1, -1`. -/
def shiftByMinusOne : List UInt8 :=
  [0xc4, 1, 0, 0, 0xff, 0xff, 0xff, 0xff]

/-- The amount is 31, the last five bits of minus one. The low half of `r1` has its sign bit set, so
all 32 bits of the result are set; the high half of `r1` does not matter, and that of the result is
zero. -/
theorem alu_exact_shiftByMinusOne :
    let regs := Registers.zero.put 1 0xdeadbeef80000000
    let m : Machine := { Machine.new { stackSize := 8 } with regs }
    ∃ slot, Decoder.decode {} .little shiftByMinusOne = .ok slot ∧
      slot.insn.op = .alu .arsh .w32 .imm ∧
      (exec ({} : Env Unit) m slot.insn).machine.regs = regs.put 1 0xffffffff := by
  intro regs m
  have hdecode : Decoder.decode {} .little shiftByMinusOne =
      .ok { insn := { op := .alu .arsh .w32 .imm, opcode := 0xc4, dst := 1, src := 0, off := 0,
                      imm := -1 }
            wide := false } := rfl
  obtain ⟨v, hv, hexec⟩ := (@alu_exact Unit).2 {} .little _ _ _ _ _ hdecode rfl {} m
  have hvalue : v = 0xffffffff := by
    apply UInt64.toNat_inj.mp
    have hint : (v.toNat : Int) = 0xffffffff := hv.trans (by decide)
    exact Int.ofNat.inj hint
  refine ⟨_, hdecode, rfl, ?_⟩
  rw [hexec, hvalue]
  rfl

end Machine

end Ebpf

/-
  Operands as integers. An operation of a width looks at its operands modulo a
  power of two (`Width.residue`), and reads what is left as a natural number or,
  for shifts that keep the sign and for signed comparisons, in two's complement.

  The immediate of an instruction goes through two conversions before it gets
  there, one of which depends on the width. `residue_operand`: what arrives is
  the signed 32-bit number of the word, modulo the power of two, for both widths.
-/
import Ebpf.Machine.Exec
import Ebpf.Proofs.Grammar
import Mathlib.Algebra.Ring.Int.Defs

namespace Ebpf

/-! ## Residues and signs -/

/-- The number of `width` bits that is congruent to an integer. -/
def Width.residue (width : Width) (n : Int) : Nat :=
  (n % 2 ^ width.bits).toNat

/-- The integer that a number of the given count of bits stands for in two's complement. -/
def twosComplement (bits x : Nat) : Int :=
  if x < 2 ^ (bits - 1) then x else x - 2 ^ bits

theorem toInt_eq_twosComplement {w : Nat} (x : BitVec w) (hw : 0 < w) :
    x.toInt = twosComplement w x.toNat := by
  have hhalf := Nat.two_pow_pred_mul_two hw
  have hlt : 2 * x.toNat < 2 ^ w ↔ x.toNat < 2 ^ (w - 1) := by omega
  rw [BitVec.toInt_eq_toNat_cond, twosComplement]
  simp only [hlt]
  push_cast
  rfl

/-- A signed number is congruent to the unsigned one that has its bits. -/
theorem toNat_toUInt64_eq_emod (v : Int64) : (v.toUInt64.toNat : Int) = v.toInt % 2 ^ 64 := by
  have hcast : v.toInt = (v.toUInt64.toNat : Int).bmod (2 ^ 64) := BitVec.toInt_eq_toNat_bmod _
  have hmod := Int.bmod_emod (x := (v.toUInt64.toNat : Int)) (m := 2 ^ 64)
  have hlt := v.toUInt64.toNat_lt
  rw [hcast]
  omega

namespace Width

theorem natCast_residue (width : Width) (n : Int) : (width.residue n : Int) = n % 2 ^ width.bits := by
  cases width <;> simp only [residue, bits] <;> omega

theorem residue_lt (width : Width) (n : Int) : width.residue n < 2 ^ width.bits := by
  cases width <;> simp only [residue, bits] <;> omega

theorem residue_of_lt {width : Width} {n : Nat} (h : n < 2 ^ width.bits) : width.residue n = n := by
  cases width <;> simp only [residue, bits] at h ⊢ <;> omega

/-- Wrapping to a register first makes no difference. -/
theorem residue_emod (width : Width) (n : Int) : width.residue (n % 2 ^ 64) = width.residue n := by
  cases width <;> simp only [residue, bits] <;> omega

/-! ## What operations read -/

theorem toNat_low (width : Width) (v : UInt64) : (width.low v).toNat = width.residue v.toNat := by
  have hlt := v.toNat_lt
  cases width with
  | w32 =>
    rw [low, UInt32.toNat_toUInt64, UInt64.toNat_toUInt32, residue, bits]
    omega
  | w64 => exact (residue_of_lt hlt).symm

theorem toNat_shift (width : Width) (v : UInt64) : (width.shift v).toNat = v.toNat % width.bits := by
  cases width <;> exact UInt64.toNat_mod _ _

theorem toInt_signed (width : Width) (v : UInt64) :
    (width.signed v).toInt = twosComplement width.bits (width.residue v.toNat) := by
  rw [← toNat_low]
  cases width with
  | w32 =>
    rw [signed, Int32.toInt_toInt64, low, UInt32.toNat_toUInt64]
    exact toInt_eq_twosComplement v.toUInt32.toBitVec (by decide)
  | w64 => exact toInt_eq_twosComplement v.toBitVec (by decide)

end Width

/-! ## Immediates -/

/-- Only wide instructions have more than the signed number of their word. -/
theorem imm_of_not_isWide {d : Decoder} {o : ByteOrder} {bytes : List UInt8} {slot : Slot}
    (h : d.decode o bytes = .ok slot) (hop : d.isWide slot.insn.op = false) :
    slot.insn.imm.toInt = (immAt o bytes 4).toInt := by
  have heffect := decode_effect d o bytes
  have hwide : slot.wide = false := (heffect.wide_eq_isWide h).trans hop
  rw [(heffect.imm_of_ok h).2, hwide]
  exact Int32.toInt_toInt64 _

namespace Machine

/-- The second operand of an instruction as an integer: the number in the source register, or the
signed number in the last four bytes of the word. -/
def operandInt (m : Machine) (o : ByteOrder) (bytes : List UInt8) (i : Insn) : Source → Int
  | .reg => (m.regs.get i.src).toNat
  | .imm => (immAt o bytes 4).toInt

theorem residue_operand {d : Decoder} {o : ByteOrder} {bytes : List UInt8} {slot : Slot}
    (h : d.decode o bytes = .ok slot) (hop : d.isWide slot.insn.op = false) (m : Machine)
    (source : Source) (width : Width) :
    width.residue (m.operand slot.insn source width).toNat =
      width.residue (m.operandInt o bytes slot.insn source) := by
  match source with
  | .reg => rfl
  | .imm =>
    have himm : width.residue slot.insn.imm.toUInt64.toNat =
        width.residue (immAt o bytes 4).toInt := by
      rw [toNat_toUInt64_eq_emod, Width.residue_emod, imm_of_not_isWide h hop]
    rw [operandInt, ← himm]
    match width with
    | .w64 => rfl
    | .w32 =>
      -- the immediate is cut to 32 bits twice
      show Width.w32.residue (Width.w32.low slot.insn.imm.toUInt64).toNat = _
      rw [Width.toNat_low, Width.residue_of_lt (Width.residue_lt _ _)]

end Machine

end Ebpf
